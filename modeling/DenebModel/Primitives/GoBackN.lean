import Mathlib.Data.List.Basic
import Mathlib.Data.Nat.Basic
import Mathlib.Logic.Relation
import Mathlib.Order.Basic

-- A go-back-N protocol over lossy FIFO links. Messages are numbered from 0 in the order in which
-- they were given to the sender, so nothing wraps here.
namespace GoBackN

inductive Reply
  | ack (n : Nat)
  | nak (n : Nat)
  | noise

namespace Reply

-- The numbers below this are known to be executed by who reads the reply.
def floor : Reply → Nat
  | ack n => n + 1
  | nak n => n
  | noise => 0

-- Whether a sender that counts `base` messages as executed can be sent this reply, when the
-- receiver has executed `count` messages.
def Between (base count : Nat) : Reply → Prop
  | ack n => base ≤ n ∧ n < count
  | nak n => base ≤ n ∧ n ≤ count
  | noise => True

-- The first reply does not know more than the second one.
def Before (r r' : Reply) : Prop :=
  match r' with
  | ack n | nak n => r.floor ≤ n
  | noise         => True

theorem Between.floor_le {base count : Nat} {r : Reply} (h : r.Between base count) :
    r.floor ≤ count := by
  cases r
  case ack n => exact h.2
  case nak n => exact h.2
  case noise => exact Nat.zero_le _

theorem Between.mono {base count count' : Nat} {r : Reply} (h : r.Between base count)
    (hc : count ≤ count') : r.Between base count' := by
  cases r
  case ack n => exact ⟨h.1, h.2.trans_le hc⟩
  case nak n => exact ⟨h.1, h.2.trans hc⟩
  case noise => trivial

theorem Between.raise {base count : Nat} {r r' : Reply} (h : r'.Between base count)
    (hb : r.Before r') : r'.Between r.floor count := by
  cases r'
  case ack n => exact ⟨hb, h.2⟩
  case nak n => exact ⟨hb, h.2⟩
  case noise => trivial

theorem Before.noise_left {r : Reply} : Before noise r := by
  cases r
  case noise => trivial
  all_goals exact Nat.zero_le _

end Reply

-- `base` messages are known to the sender as executed; `none` stands for a damaged packet.
structure State (α : Type) where
  sent     : List α
  base     : Nat
  executed : List α
  packets  : List (Option (Nat × α))
  replies  : List Reply

variable {α : Type} {window : Nat}

inductive Step (window : Nat) : State α → State α → Prop
  | send (m) : s.sent.length < s.base + window →
    Step window s { s with
      sent    := s.sent ++ [m]
      packets := s.packets ++ [some (s.sent.length, m)] }
  | resend : s.base ≤ n → s.sent[n]? = some m →
    Step window s { s with packets := s.packets ++ [some (n, m)] }
  | garble :
    Step window s { s with packets := s.packets ++ [none] }
  | lose (before p after) : s.packets = before ++ p :: after →
    Step window s { s with packets := before ++ after }
  | damage (before p after) : s.packets = before ++ p :: after →
    Step window s { s with packets := before ++ none :: after }
  | execute : s.packets = some (n, m) :: rest → n = s.executed.length →
    Step window s { s with
      packets  := rest
      executed := s.executed ++ [m]
      replies  := s.replies ++ [.ack n] }
  | refuse : s.packets = p :: rest → (∀ n m, p = some (n, m) → n ≠ s.executed.length) →
    Step window s { s with
      packets := rest
      replies := s.replies ++ [.nak s.executed.length] }
  | chat :
    Step window s { s with replies := s.replies ++ [.noise] }
  | loseReply (before r after) : s.replies = before ++ r :: after →
    Step window s { s with replies := before ++ after }
  | damageReply (before r after) : s.replies = before ++ r :: after →
    Step window s { s with replies := before ++ .noise :: after }
  | accept : s.replies = r :: rest → r ≠ .noise →
    Step window s { s with replies := rest, base := r.floor }

abbrev Steps (window : Nat) : State α → State α → Prop :=
  Relation.ReflTransGen (Step window)

-- A packet in flight carries the message of its number, and its number is at most a window behind
-- what the receiver expects.
def Carries (window : Nat) (sent : List α) (count : Nat) (p : Option (Nat × α)) : Prop :=
  ∀ n m, p = some (n, m) → sent[n]? = some m ∧ count ≤ n + window

-- The first of two packets in flight is less than a window ahead of the second one.
def Near (window : Nat) (p p' : Option (Nat × α)) : Prop :=
  ∀ n m n' m', p = some (n, m) → p' = some (n', m') → n < n' + window

structure Inv (window : Nat) (s : State α) : Prop where
  in_order : s.executed <+: s.sent
  base_le  : s.base ≤ s.executed.length
  sent_le  : s.sent.length ≤ s.base + window
  carries  : ∀ p ∈ s.packets, Carries window s.sent s.executed.length p
  near     : s.packets.Pairwise (Near window)
  between  : ∀ r ∈ s.replies, r.Between s.base s.executed.length
  ordered  : s.replies.Pairwise Reply.Before

variable {s s' : State α}

theorem Carries.mono {sent sent' : List α} {count : Nat} {p : Option (Nat × α)}
    (h : Carries window sent count p) (hs : sent <+: sent') : Carries window sent' count p := by
  intro n m hp
  have ⟨hm, hn⟩ := h n m hp
  refine ⟨?_, hn⟩
  have ⟨hlt, hm⟩ := List.getElem?_eq_some_iff.mp hm
  rw [List.getElem?_eq_some_iff]
  exact ⟨hlt.trans_le hs.length_le, hm ▸ (hs.getElem hlt).symm⟩

theorem Carries.none {sent : List α} {count : Nat} : Carries window sent count none := by
  intro n m hp
  contradiction

theorem Near.none_left {p : Option (Nat × α)} : Near window none p := by
  intro n m n' m' hp
  contradiction

theorem Near.none_right {p : Option (Nat × α)} : Near window p none := by
  intro n m n' m' _ hp
  contradiction

namespace Inv

-- Every packet in flight is less than a window ahead of a number from `base` on.
theorem near_of_base_le (inv : Inv window s) {n : Nat} {m : α} (hn : s.base ≤ n) :
    ∀ p ∈ s.packets, Near window p (some (n, m)) := by
  intro p hp n₁ m₁ n₂ m₂ h₁ h₂
  have ⟨hlt, _⟩ := List.getElem?_eq_some_iff.mp (inv.carries p hp n₁ m₁ h₁).1
  have := inv.sent_le
  cases h₂
  omega

theorem floor_le (inv : Inv window s) : ∀ r ∈ s.replies, r.floor ≤ s.executed.length :=
  fun r hr => (inv.between r hr).floor_le

-- The packet may only have a number of a message that is sent and not known to be executed.
theorem push (inv : Inv window s) {n : Nat} {m : α} (hn : s.base ≤ n) (hm : s.sent[n]? = some m) :
    Inv window { s with packets := s.packets ++ [some (n, m)] } where
  __ := inv
  carries := by
    intro p hp
    rcases List.mem_append.mp hp with hp | hp
    case inl => exact inv.carries p hp
    case inr =>
      cases List.mem_singleton.mp hp
      intro n' m' h
      cases h
      have ⟨hlt, _⟩ := List.getElem?_eq_some_iff.mp hm
      have := inv.in_order.length_le
      have := inv.sent_le
      exact ⟨hm, by simp only; omega⟩
  near := by
    refine List.pairwise_append.mpr ⟨inv.near, List.pairwise_singleton .., ?_⟩
    intro p hp q hq
    cases List.mem_singleton.mp hq
    exact inv.near_of_base_le hn p hp

theorem send (inv : Inv window s) (m : α) (h : s.sent.length < s.base + window) :
    Inv window { s with
      sent    := s.sent ++ [m]
      packets := s.packets ++ [some (s.sent.length, m)] } := by
  have grown : Inv window { s with sent := s.sent ++ [m] } := {
    inv with
    in_order := inv.in_order.trans (List.prefix_append ..)
    sent_le  := by simp; omega
    carries  := fun p hp => (inv.carries p hp).mono (List.prefix_append ..)
  }
  have := inv.base_le
  have := inv.in_order.length_le
  exact grown.push (by simp only; omega) (by simp)

theorem reply (inv : Inv window s) {r : Reply} (hr : r.Between s.base s.executed.length)
    (hb : ∀ r' : Reply, r'.floor ≤ s.executed.length → r'.Before r) :
    Inv window { s with replies := s.replies ++ [r] } where
  __ := inv
  between := by
    intro r' hr'
    rcases List.mem_append.mp hr' with hr' | hr'
    case inl => exact inv.between r' hr'
    case inr => exact List.mem_singleton.mp hr' ▸ hr
  ordered := by
    refine List.pairwise_append.mpr ⟨inv.ordered, List.pairwise_singleton .., ?_⟩
    intro r₁ h₁ r₂ h₂
    cases List.mem_singleton.mp h₂
    exact hb r₁ (inv.floor_le r₁ h₁)

-- Taking packets out of the link, in any way.
theorem sublist (inv : Inv window s) (ps : List (Option (Nat × α))) (h : ps.Sublist s.packets) :
    Inv window { s with packets := ps } where
  __ := inv
  carries := fun p hp => inv.carries p (h.subset hp)
  near := inv.near.sublist h

theorem sublist_replies (inv : Inv window s) (rs : List Reply) (h : rs.Sublist s.replies) :
    Inv window { s with replies := rs } where
  __ := inv
  between := fun r hr => inv.between r (h.subset hr)
  ordered := inv.ordered.sublist h

-- A damaged packet may stand anywhere in the link.
theorem insert_none (inv : Inv window s) {before after : List (Option (Nat × α))}
    (h : s.packets = before ++ after) :
    Inv window { s with packets := before ++ none :: after } where
  __ := inv
  carries := by
    intro p hp
    rcases List.mem_append.mp hp with hp | hp
    case inl => exact inv.carries p (by simp [h, hp])
    case inr =>
      rcases List.mem_cons.mp hp with rfl | hp
      case inl => exact .none
      case inr => exact inv.carries p (by simp [h, hp])
  near := by
    have near := inv.near
    rw [h, List.pairwise_append] at near
    rw [List.pairwise_append, List.pairwise_cons]
    refine ⟨near.1, ⟨fun _ _ => .none_left, near.2.1⟩, fun p hp p' hp' => ?_⟩
    rcases List.mem_cons.mp hp' with rfl | hp'
    case inl => exact .none_right
    case inr => exact near.2.2 p hp p' hp'

theorem insert_noise (inv : Inv window s) {before after : List Reply}
    (h : s.replies = before ++ after) :
    Inv window { s with replies := before ++ .noise :: after } where
  __ := inv
  between := by
    intro r hr
    rcases List.mem_append.mp hr with hr | hr
    case inl => exact inv.between r (by simp [h, hr])
    case inr =>
      rcases List.mem_cons.mp hr with rfl | hr
      case inl => trivial
      case inr => exact inv.between r (by simp [h, hr])
  ordered := by
    have ordered := inv.ordered
    rw [h, List.pairwise_append] at ordered
    rw [List.pairwise_append, List.pairwise_cons]
    refine ⟨ordered.1, ⟨fun r _ => .noise_left, ordered.2.1⟩, fun r hr r' hr' => ?_⟩
    rcases List.mem_cons.mp hr' with rfl | hr'
    case inl => trivial
    case inr => exact ordered.2.2 r hr r' hr'

theorem execute (inv : Inv window s) {n : Nat} {m : α} {rest : List (Option (Nat × α))}
    (h : s.packets = some (n, m) :: rest) (hn : n = s.executed.length) :
    Inv window { s with
      packets  := rest
      executed := s.executed ++ [m]
      replies  := s.replies ++ [.ack n] } := by
  have hm := (inv.carries _ (h ▸ .head _) n m rfl).1
  have near := inv.near
  rw [h, List.pairwise_cons] at near
  have moved : Inv window { s with packets := rest, executed := s.executed ++ [m] } := {
    in_order := by
      have ⟨rest, hs⟩ := inv.in_order
      refine ⟨rest.tail, ?_⟩
      rw [← hs, hn, List.getElem?_append_right le_rfl, Nat.sub_self] at hm
      cases rest <;> simp_all
    base_le := inv.base_le.trans (by simp)
    sent_le := inv.sent_le
    carries := by
      intro p hp n' m' hp'
      have := near.1 p hp n m n' m' rfl hp'
      exact ⟨(inv.carries p (h ▸ .tail _ hp) n' m' hp').1, by simp; omega⟩
    near := near.2
    between := fun r hr => (inv.between r hr).mono (by simp)
    ordered := inv.ordered
  }
  have := inv.base_le
  refine ⟨moved.in_order, moved.base_le, moved.sent_le, moved.carries, moved.near, ?_, ?_⟩
  case refine_1 =>
    intro r hr
    rcases List.mem_append.mp hr with hr | hr
    case inl => exact moved.between r hr
    case inr =>
      cases List.mem_singleton.mp hr
      exact ⟨by simp only; omega, by simp; omega⟩
  case refine_2 =>
    refine List.pairwise_append.mpr ⟨inv.ordered, List.pairwise_singleton .., ?_⟩
    intro r₁ h₁ r₂ h₂
    cases List.mem_singleton.mp h₂
    exact hn ▸ inv.floor_le r₁ h₁

theorem refuse (inv : Inv window s) {p : Option (Nat × α)} {rest : List (Option (Nat × α))}
    (h : s.packets = p :: rest) :
    Inv window { s with packets := rest, replies := s.replies ++ [.nak s.executed.length] } := by
  have := inv.sublist rest (h ▸ List.sublist_cons_self ..)
  exact this.reply ⟨inv.base_le, le_rfl⟩ (fun _ hr => hr)

theorem head_between (inv : Inv window s) {r : Reply} {rest : List Reply}
    (h : s.replies = r :: rest) : r.Between s.base s.executed.length :=
  inv.between r (h ▸ .head _)

theorem accept (inv : Inv window s) {r : Reply} {rest : List Reply} (h : s.replies = r :: rest)
    (hr : r ≠ .noise) : Inv window { s with replies := rest, base := r.floor } := by
  have between := inv.head_between h
  have ordered := inv.ordered
  rw [h, List.pairwise_cons] at ordered
  have base_le : s.base ≤ r.floor := by
    cases r
    case ack n => exact between.1.trans (Nat.le_succ n)
    case nak n => exact between.1
    case noise => contradiction
  exact {
    inv with
    base_le := between.floor_le
    sent_le := inv.sent_le.trans (Nat.add_le_add_right base_le _)
    between := fun r' hr' => (inv.between r' (h ▸ .tail _ hr')).raise (ordered.1 r' hr')
    ordered := ordered.2
  }

theorem step (inv : Inv window s) (e : Step window s s') : Inv window s' := by
  cases e
  case send m h              => exact inv.send m h
  case resend hn hm          => exact inv.push hn hm
  case garble                => exact inv.insert_none (List.append_nil _).symm
  case lose before p after h => exact inv.sublist _ (by simp [h])
  case damage before p after h =>
    have lost := inv.sublist (before ++ after) (by simp [h])
    exact lost.insert_none rfl
  case execute n m rest h hn => exact inv.execute h hn
  case refuse p rest h _     => exact inv.refuse h
  case chat                  => exact inv.insert_noise (List.append_nil _).symm
  case loseReply before r after h => exact inv.sublist_replies _ (by simp [h])
  case damageReply before r after h =>
    have lost := inv.sublist_replies (before ++ after) (by simp [h])
    exact lost.insert_noise rfl
  case accept r rest hr h    => exact inv.accept h hr

theorem steps (inv : Inv window s) (e : Steps window s s') : Inv window s' := by
  induction e
  case refl          => exact inv
  case tail _ e ih   => exact ih.step e

end Inv

-- The packet at the head of the link, when it is intact, and what the receiver expects are within
-- one window of each other.
theorem Inv.head_near (inv : Inv window s) {n : Nat} {m : α} {rest : List (Option (Nat × α))}
    (h : s.packets = some (n, m) :: rest) :
    n < s.executed.length + window ∧ s.executed.length ≤ n + window := by
  have ⟨hm, hn⟩ := inv.carries _ (h ▸ .head _) n m rfl
  have ⟨hlt, _⟩ := List.getElem?_eq_some_iff.mp hm
  have := inv.sent_le
  have := inv.base_le
  exact ⟨by omega, hn⟩

end GoBackN

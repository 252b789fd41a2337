import DenebModel.Primitives.CString

-- `common/print/print_job_file.c`: the names of the files that are uploaded.
namespace Deneb.JobFile

open CString

-- `DENEB_PRINT_JOB_SPOOL_DIR`
def spoolDir : CString := "/home/3D/deneb-uploads"

-- The text behind the last slash or backslash.
def baseName (s : CString) : CString :=
  match strrchr s 47, strrchr s 92 with
  | some (front, base), some (front', base') => if front'.length < front.length then base else base'
  | some (_, base), none                     => base
  | none, some (_, base')                    => base'
  | none, none                               => s

-- The name that is given; there is none without a pointer.
def given : Option CString → CString
  | some (c :: cs) => c :: cs
  | _              => "upload.gcode"

def sanitizeName (name : Option CString) (outSize : Nat) : Option CString :=
  let base := baseName (given name)
  let base : CString :=
    if base = [] ∨ base = ofString "." ∨ base = ofString ".." then "upload.gcode" else base
  if outSize = 0 ∨ outSize ≤ base.length then none else some base

-- Whether it succeeds, and what is in the output then. The size is converted to an `int`.
def spoolPath (name : Option CString) (outSize : Nat) : Bool × CString :=
  if outSize = 0 then (false, [])
  else
    match sanitizeName name 128 with
    | none      => (false, [])
    | some safe =>
      let path := spoolDir ++ 47 :: safe
      if (outSize : Int).bmod (2 ^ 32) ≤ path.length then (false, []) else (true, fit outSize path)

end Deneb.JobFile

import PgEmbedSetup.Library.Text

set_option autoImplicit false

/-!
`src/extensions/layout.rs`: which paths an extension archive may carry.
-/

namespace PgEmbedSetup.Extensions
open Library

/-- What `Path::components` yields on Unix. -/
inductive Component where
  | rootDir
  | curDir
  | parentDir
  | normal (part : Bytes)
  deriving DecidableEq, Repr

def slash : UInt8 := 0x2F

def dot : UInt8 := 0x2E

/-- Empty components and a `.` anywhere but in front are dropped. -/
def component (segment : Bytes) : Option Component :=
  if segment = [] ∨ segment = [dot] then none
  else if segment = [dot,dot] then some .parentDir
  else some (.normal segment)

def components (raw : Bytes) : List Component :=
  let segments := raw.splitOn slash
  let front := if raw.head? = some slash then [.rootDir]
    else if segments.head? = some [dot] then [.curDir]
    else []
  front ++ segments.filterMap component

/-- A relative path of plain components, from the install root down. -/
abbrev RelPath := List Text

/-- The path as one string. -/
def RelPath.joined (relative : RelPath) : Text := List.intercalate ['/'] relative

def plainComponent (part : Text) : Option Text :=
  if '\\' ∉ part ∧ '/' ∉ part then some part else none

def normalFrom : Nat → List Component → Option RelPath
  | _, [] => some []
  | 0, .curDir :: rest => normalFrom 1 rest
  | index, .normal part :: rest => do
    let text ← (decodeUtf8 part).bind plainComponent
    let parts ← normalFrom (index+1) rest
    some (text :: parts)
  | _, _ :: _ => none

def normalComponents (raw : Bytes) : Option RelPath := normalFrom 0 (components raw)

def libDir : Text := ['l','i','b']

def shareDir : Text := ['s','h','a','r','e']

def extensionDir : Text := ['e','x','t','e','n','s','i','o','n']

def isAllowedLayout : RelPath → Bool
  | [top,_] => top = libDir
  | top :: next :: _ :: _ => top = shareDir && next = extensionDir
  | _ => false

def classifyEntryPath (raw : Bytes) : Option RelPath :=
  (normalComponents raw).filter isAllowedLayout

theorem classifyEntryPath_allowed {raw : Bytes} {relative : RelPath}
    (h : classifyEntryPath raw = some relative) : isAllowedLayout relative = true := by
  simp only [classifyEntryPath,Option.filter_eq_some_iff] at h
  exact h.2

/-- No accepted path is the install root or an entry directly in it. -/
theorem length_of_isAllowedLayout {relative : RelPath} (h : isAllowedLayout relative = true) :
    2 ≤ relative.length := by
  match relative, h with
  | [_,_], _ => simp
  | _ :: _ :: _ :: _, _ => simp

example : classifyEntryPath (ascii "./lib//vector.so/") =
    some [libDir,['v','e','c','t','o','r','.','s','o']] := by decide

end PgEmbedSetup.Extensions

import FirmwareUpdater.Core.CLib
import FirmwareUpdater.Core.Types

/-!
# URLs

`url::scheme`, `url::fetchable`, `url::join` and `url::formatPath`. A result that does not
fit its buffer is refused, and what the buffer then holds is read by nobody.
-/

namespace FirmwareUpdater.Url

/-- `startsWithNoCase`. The text ends in a terminator, which equals no byte of a prefix. -/
def startsWithNoCase (s : List UInt8) : List UInt8 → Bool
  | [] => true
  | b :: rest => tolower (s.headD 0) = tolower b && startsWithNoCase s.tail rest

/-- `Scheme`. -/
inductive Scheme where
  | unknown
  | http
  | https
  deriving DecidableEq, Repr

/-- `scheme`. -/
def scheme (u : Option CString) : Scheme :=
  match u with
  | none => .unknown
  | some u =>
      if startsWithNoCase u.bytes (ascii "https://") then .https
      else if startsWithNoCase u.bytes (ascii "http://") then .http
      else .unknown

/-- `fetchable`: whether a link can fetch this URL. -/
def fetchable (u : Option CString) (linkSupportsTls : Bool) : Bool :=
  match scheme u with
  | .http => true
  | .https => linkSupportsTls
  | .unknown => false

/-- The base without the slashes at its end. -/
def trimmed (base : List UInt8) : List UInt8 := (base.reverse.dropWhile (· = 47)).reverse

/-- The text `join` prints: exactly one slash is put where the path brings none. -/
def joined (base path : CString) : List UInt8 :=
  trimmed base.bytes ++ (if path.byteAt 0 = 47 then [] else [47]) ++ path.bytes

/-- No slash is a terminator. -/
theorem noNul_joined (base path : CString) : 0 ∉ joined base path := by
  intro h
  have hbase : 0 ∉ trimmed base.bytes := fun hmem => base.noNul
    (List.mem_reverse.mp ((List.dropWhile_sublist _).mem (List.mem_reverse.mp hmem)))
  rcases List.mem_append.mp h with h | h
  · rcases List.mem_append.mp h with h | h
    · exact hbase h
    · split at h <;> simp at h
  · exact path.noNul h

/-- `join`. -/
def join (base path : CString) (cap : Nat) : Option (Field cap) :=
  if h : (joined base path).length < cap then some ⟨⟨joined base path, noNul_joined base path⟩, h⟩
  else none

/-- What `printf` makes of a template with one argument: none where a conversion is not `%s` or
`%%`, or a second argument is asked for. -/
def printTemplate (arg : Option CString) : List UInt8 → Option (List UInt8)
  | [] => some []
  | 37 :: 115 :: rest =>
      match arg with
      | none => none
      | some arg => (printTemplate none rest).map (arg.bytes ++ ·)
  | 37 :: 37 :: rest => (printTemplate arg rest).map (37 :: ·)
  | 37 :: _ => none
  | c :: rest => (printTemplate arg rest).map (c :: ·)

/-- `formatPath`, of a template that `printf` can print with one string. -/
def formatPath (base pathTemplate arg : CString) (cap : Nat) : Option (Field cap) :=
  match printTemplate (some arg) pathTemplate.bytes with
  | none => none
  | some path =>
      if path.length = 0 ∨ maxUrlLen ≤ path.length then none else join base (.ofBytes path) cap

end FirmwareUpdater.Url

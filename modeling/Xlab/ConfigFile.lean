import Xlab.CStrings

/-!
# Reading a configuration file

`xlab_config_create` reads a file line by line into a buffer of 255 bytes. A line `[name]`
opens a section, and any other line that is neither empty nor a comment is an entry of the last
section : an indent, a key, a space and a value. The indent is that of the first such line. A
line that is not as it should be is reported, and read all the same.

Where the code reads or writes outside an object, follows a null pointer or lets a signed number
overflow, the language leaves open what happens. There the model stops with a `Fault`. A pointer
that may be null is an `Option`.
-/

open CStr

namespace Xlab

/-- Why a run of the C code has no meaning from some point on. -/
inductive Fault where
  /-- A read or write outside the object. -/
  | outOfBounds
  /-- A null pointer is followed. -/
  | nullPointer
  /-- A signed number overflows. -/
  | overflow
  deriving DecidableEq, Repr

theorem bind_eq_ok {ε α β : Type} {x : Except ε α} {f : α → Except ε β} {b : β} :
    (x >>= f) = .ok b ↔ ∃ a, x = .ok a ∧ f a = .ok b := by
  cases x with
  | error e => exact iff_of_false nofun fun ⟨_, h, _⟩ => nomatch h
  | ok a => exact ⟨fun h => ⟨a, rfl, h⟩, fun ⟨_, ha, h⟩ => Except.ok.inj ha ▸ h⟩

theorem ok_bind {ε α β : Type} (a : α) (f : α → Except ε β) : (Except.ok a >>= f) = f a :=
  rfl

/-! ## Strings -/

/-- `strlen`. -/
def stringLength (buf : List UInt8) : Except Fault ℕ :=
  if 0 ∈ buf then .ok (cstr buf).length else .error .outOfBounds

theorem stringLength_eq_ok {s : List UInt8} (hzero : 0 ∉ s) (stale : List UInt8) :
    stringLength (s ++ 0 :: stale) = .ok s.length := by
  rw [stringLength, if_pos (List.mem_append_right s List.mem_cons_self), cstr_append_zero hzero]

/-- `xlab_string_char_search` : the index of the first `c` in `len` bytes, or −1. If `len` is
negative the string is searched. -/
def stringCharSearch (string : List UInt8) (c : UInt8) (len : ℤ) : ℤ :=
  let n := if len < 0 then (cstr string).length else len.toNat
  match (string.take n).idxOf? c with
  | some i => i
  | none => -1

/-- `xlab_string_copy_substr` from a pointer with the bytes `string` behind it. -/
def stringCopySubstr (string : List UInt8) (posInit posEnd : ℤ) :
    Except Fault (Option (List UInt8)) :=
  if posEnd < posInit then .ok none
  else if posEnd.toNat ≤ string.length then
    .ok (some (cstr ((string.drop posInit.toNat).take (posEnd - posInit).toNat)))
  else .error .outOfBounds

/-- `xlab_string_trim` : the string it leaves in the buffer. -/
def stringTrim (str : List UInt8) : List UInt8 :=
  (str.dropWhile isSpace).rdropWhile isSpace

/-! ## Sections -/

/-- `struct xlab_config_entry`. -/
structure ConfigEntry where
  key : Option (List UInt8)
  val : Option (List UInt8)
  deriving DecidableEq, Repr

/-- `struct xlab_config_section`. -/
structure ConfigSection where
  name : List UInt8
  entries : List ConfigEntry
  deriving DecidableEq, Repr

/-- What is wrong with a line. -/
inductive ConfigError where
  | emptySection
  | badHeader
  | badIndent
  | noValue
  | noKeys
  deriving DecidableEq, Repr

/-- The message `xlab_config_error` prints. -/
def ConfigError.msg : ConfigError → String
  | .emptySection => "Previous section did not have keys"
  | .badHeader => "Bad header definition"
  | .badIndent => "Invalid indentation level"
  | .noValue => "Each key must have a value"
  | .noKeys => "Section do not have keys"

/-- What `xlab_config_create` keeps while it reads : its variables, the sections of `conf`, and
the errors it has reported, each with its line. -/
structure Reader where
  buf : List UInt8
  line : ℕ
  indent : Option (List UInt8)
  nKeys : ℕ
  sections : List ConfigSection
  errors : List (ℕ × ConfigError)

/-- The state before the first line. `junk` is what the buffer holds when it is not set yet. -/
def Reader.start (junk : Vector UInt8 255) : Reader :=
  ⟨junk.toList, 0, none, 0, [], []⟩

/-- `xlab_config_error`. -/
def Reader.error (e : ConfigError) (r : Reader) : Reader :=
  { r with errors := r.errors ++ [(r.line, e)] }

/-- `xlab_config_section_add`. -/
def Reader.sectionAdd (name : List UInt8) (r : Reader) : Reader :=
  { r with sections := r.sections ++ [⟨name, []⟩], nKeys := 0 }

/-- `xlab_config_entry_add`. Without a section it takes the list head for one. -/
def Reader.entryAdd (key val : Option (List UInt8)) (r : Reader) : Except Fault Reader :=
  match r.sections.getLast? with
  | none => .error .outOfBounds
  | some s => .ok
    { r with
      sections := r.sections.dropLast ++ [{ s with entries := s.entries ++ [⟨key, val⟩] }]
      nKeys := r.nKeys + 1 }

/-! ## Lines -/

/-- The end of the line is cut off the string in the buffer. An empty string has no last byte to
look at. -/
def stripEol (buf : List UInt8) : Except Fault (List UInt8) :=
  match (cstr buf).length with
  | 0 => .error .outOfBounds
  | len + 1 =>
    .ok <|
      if buf.getD len 0 = newline then
        if 0 < len ∧ (buf.set len 0).getD (len - 1) 0 = carriage then
          (buf.set len 0).set (len - 1) 0
        else buf.set len 0
      else buf

/-- The indent of a line : its first byte, whatever it is, and the blanks after it. -/
def indentOf (text : List UInt8) : List UInt8 :=
  text.take 1 ++ (text.drop 1).takeWhile isBlank

/-- A line `[name]`, where `stop` is the index of the `]`. -/
def readSection (stop : ℤ) (r : Reader) : Except Fault Reader := do
  let r := if r.sections ≠ [] ∧ r.nKeys = 0 then r.error .emptySection else r
  let name ← stringCopySubstr r.buf 1 stop
  -- `stop` is at least 1, so there is a copy
  return r.sectionAdd (name.getD [])

/-- The key and the value of a line of length `len`, after an indent of length `indentLen`. -/
def readKeyVal (indentLen len : ℕ) (r : Reader) : Except Fault Reader := do
  let i := stringCharSearch (r.buf.drop indentLen) 0x20 ((len : ℤ) - indentLen)
  let key ← stringCopySubstr (r.buf.drop indentLen) 0 i
  let val ← stringCopySubstr (r.buf.drop ((indentLen : ℤ) + i).toNat) 1 ((len : ℤ) - indentLen)
  let r := if key = none ∨ val = none ∨ i = 0 then r.error .noValue else r
  r.entryAdd (key.map stringTrim) (val.map stringTrim)

/-- An entry line. -/
def readEntry (r : Reader) : Except Fault Reader :=
  let text := cstr r.buf
  let indent := r.indent.getD (indentOf text)
  if r.indent = none ∧ indent.length = text.length then .ok { r with indent := some indent }
  else
    let r := { r with indent := some indent }
    let r :=
      if ¬indent <+: text ∨ isBlank (r.buf.getD indent.length 0) then r.error .badIndent else r
    if r.buf.getD indent.length 0 = 0x23 ∨ indent.length = text.length then .ok r
    else readKeyVal indent.length text.length r

/-- One turn of the loop, where `fgets` has read `chunk`. -/
def readLine (r : Reader) (chunk : List UInt8) : Except Fault Reader := do
  let buf ← stripEol (chunk ++ 0 :: r.buf.drop (chunk.length + 1))
  let r := { r with buf := buf, line := r.line + 1 }
  let text := cstr buf
  if text = [] ∨ text.head? = some 0x23 then return r
  else if text.head? = some 0x5B then
    let stop := stringCharSearch buf 0x5D text.length
    if 0 < stop then readSection stop r else readEntry (r.error .badHeader)
  else readEntry r

/-- `struct xlab_config`, and the errors that were reported. -/
structure ConfigFile where
  sections : List ConfigSection
  errors : List (ℕ × ConfigError)
  deriving DecidableEq, Repr

/-- The result after the last line. -/
def Reader.finish (r : Reader) : ConfigFile :=
  let r := if r.nKeys = 0 then r.error .noKeys else r
  ⟨r.sections, r.errors⟩

/-- `xlab_config_create` of a file with the bytes `file`, which is `none` if it cannot be
opened. -/
def configCreate (junk : Vector UInt8 255) (file : Option (List UInt8)) :
    Except Fault (Option ConfigFile) :=
  match file with
  | none => .ok none
  | some bytes => do
    let r ← (fgetsAll 255 [] bytes).foldlM readLine (.start junk)
    return some r.finish

end Xlab

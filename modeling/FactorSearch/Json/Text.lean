import FactorSearch.Json.Reader

/-!
# Strings in JSON

A string is read one character at a time by a small machine, from behind its opening quote to its
closing one.  Escapes of UTF-16 surrogates have to come in pairs, unless the string is skipped.
-/

namespace FactorSearch.Json

namespace Text

/-- What the machine is in the middle of. -/
inductive Mode
  | plain
  /-- Behind a backslash. -/
  | escape
  /-- `left + 1` hexadecimal digits are missing; `high` is the surrogate that waits for its
  partner. -/
  | hex (high : Option Nat) (left : Nat) (value : Nat)
  /-- A high surrogate waits for a backslash. -/
  | pairBackslash (high : Nat)
  /-- A high surrogate waits for the `u` of its partner. -/
  | pairU (high : Nat)
deriving DecidableEq

/-- Whether four bytes are left. -/
def fourBytes (s : List Char) : Bool := 4 ≤ (s.take 4).foldr (fun c n => c.utf8Size + n) 0

variable {ε : Type}

/-- Behind the four digits of `\u`, with their value. -/
def afterHex (paired : Bool) (taken : List Char) (high : Option Nat) (value : Nat) :
    Except (Fault ε) (Mode × List Char) :=
  if !paired then .ok (.plain, taken)
  else
    match high with
    | some h =>
      if isLowSurrogate value then
        .ok (.plain, Char.ofNat ((h - 0xd800) * 0x400 + (value - 0xdc00) + 0x10000) :: taken)
      else .error .malformed
    | none =>
      if isLowSurrogate value then .error .malformed
      else if isHighSurrogate value then .ok (.pairBackslash value, taken)
      else .ok (.plain, Char.ofNat value :: taken)

/-- One character `c` before `rest`: the next mode and the characters read so far, the last one
first, or nothing at the closing quote. -/
def step (paired : Bool) (taken : List Char) (c : Char) (rest : List Char) :
    Mode → Except (Fault ε) (Option (Mode × List Char))
  | .plain =>
    if c = '"' then .ok none
    else if c = '\\' then .ok (some (.escape, taken))
    else if c.toNat < 0x20 then .error .malformed
    else .ok (some (.plain, c :: taken))
  | .escape =>
    if c = 'u' then
      if fourBytes rest then .ok (some (.hex none 3 0, taken)) else .error .truncated
    else
      match simpleEscape? c with
      | some c' => .ok (some (.plain, c' :: taken))
      | none => .error .malformed
  | .hex high left value =>
    match hexDigit? c, left with
    | none, _ => .error .malformed
    | some d, 0 => (afterHex paired taken high (value * 16 + d)).map some
    | some d, left + 1 => .ok (some (.hex high left (value * 16 + d), taken))
  | .pairBackslash high =>
    if c = '\\' then .ok (some (.pairU high, taken)) else .error .malformed
  | .pairU high =>
    if c = 'u' then
      if fourBytes rest then .ok (some (.hex (some high) 3 0, taken)) else .error .truncated
    else .error .malformed

/-- Runs the machine up to the closing quote. -/
def scan (paired : Bool) : Mode → List Char → List Char → Except (Fault ε) (String × List Char)
  | _, _, [] => .error .truncated
  | mode, taken, c :: rest =>
    match step paired taken c rest mode with
    | .error fault => .error fault
    | .ok none => .ok (String.ofList taken.reverse, rest)
    | .ok (some (mode', taken')) => scan paired mode' taken' rest

/-- The text of a string, from behind its opening quote. -/
def read : Reader ε String := fun s => scan true .plain [] s

/-- Passes over a string, from behind its opening quote. -/
def skip : Reader ε Unit := fun s => (scan false .plain [] s).map fun (_, rest) => ((), rest)

end Text

end FactorSearch.Json

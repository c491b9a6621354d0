-- Code points of a byte string. A byte that belongs to no valid UTF-8
-- sequence counts as one replacement character.
import Asm6502.Text

namespace Asm6502

namespace Utf8

/-- The code point that stands for an invalid byte. -/
def replacement : Nat := 0xFFFD

/-- A continuation byte between two bounds. -/
def continues (low high b : UInt8) : Bool := low ≤ b && b ≤ high

def next : Text → Option (Nat × Text)
  | [] => none
  | a :: rest =>
    let invalid := some (replacement, rest)
    if a < 0x80 then some (a.toNat, rest)
    else if 0xC2 ≤ a && a ≤ 0xDF then
      match rest with
      | b :: after =>
        if continues 0x80 0xBF b then some ((a.toNat % 32) * 64 + b.toNat % 64, after) else invalid
      | _ => invalid
    else if 0xE0 ≤ a && a ≤ 0xEF then
      let low := if a == 0xE0 then 0xA0 else 0x80
      let high := if a == 0xED then 0x9F else 0xBF
      match rest with
      | b :: c :: after =>
        if continues low high b && continues 0x80 0xBF c then
          some ((a.toNat % 16) * 4096 + (b.toNat % 64) * 64 + c.toNat % 64, after)
        else invalid
      | _ => invalid
    else if 0xF0 ≤ a && a ≤ 0xF4 then
      let low := if a == 0xF0 then 0x90 else 0x80
      let high := if a == 0xF4 then 0x8F else 0xBF
      match rest with
      | b :: c :: d :: after =>
        if continues low high b && continues 0x80 0xBF c && continues 0x80 0xBF d then
          some ((a.toNat % 8) * 262144 + (b.toNat % 64) * 4096 + (c.toNat % 64) * 64 + d.toNat % 64,
            after)
        else invalid
      | _ => invalid
    else invalid

theorem next_length {t rest : Text} {code : Nat} (h : next t = some (code, rest)) :
    rest.length < t.length := by
  cases t with
  | nil => simp [next] at h
  | cons a tail =>
    simp only [next] at h
    repeat' split at h
    all_goals
      obtain ⟨_, rfl⟩ := Prod.mk.inj (Option.some.inj h)
      simp only [List.length_cons]
      omega

def decode (t : Text) : List Nat :=
  match h : next t with
  | none => []
  | some (code, rest) =>
    have : rest.length < t.length := next_length h
    code :: decode rest
termination_by t.length

def encode (code : Nat) : Text :=
  let tail (shift : Nat) : UInt8 := UInt8.ofNat (0x80 + code / shift % 64)
  if code < 0x80 then [UInt8.ofNat code]
  else if code < 0x800 then [UInt8.ofNat (0xC0 + code / 64), tail 1]
  else if code < 0x10000 then [UInt8.ofNat (0xE0 + code / 4096), tail 64, tail 1]
  else [UInt8.ofNat (0xF0 + code / 262144), tail 4096, tail 64, tail 1]

/-- The longest start of a text whose code points all satisfy `p`, with every
invalid byte replaced, and the text behind it. -/
def span (p : Nat → Bool) (t : Text) : Text × Text :=
  match h : next t with
  | none => ([], t)
  | some (code, rest) =>
    have : rest.length < t.length := next_length h
    if p code then
      let (run, after) := span p rest
      (encode code ++ run, after)
    else ([], t)
termination_by t.length

/-- The text with every invalid byte replaced. -/
def repair (t : Text) : Text := (decode t).flatMap encode

end Utf8

end Asm6502

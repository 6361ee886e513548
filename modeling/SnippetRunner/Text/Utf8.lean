/-!
# Reading UTF-8

`decodeUtf8?` reads a sequence of bytes that is UTF-8 throughout, and `decodeUtf8Lossy` reads any
bytes: a maximal start of a character that breaks off becomes one replacement character, and so
does a byte that can start none.
-/

namespace SnippetRunner.Text

/-- The replacement character. -/
def replacement : Char := '\uFFFD'

/-- What stands at the head of the bytes: a character or a fault, and how many bytes it takes. -/
inductive Utf8Step
  | char (c : Char) (size : Nat)
  | fault (size : Nat)

/-- Whether the byte at position `i` lies between `low` and `high`. -/
def byteIn (bytes : List UInt8) (i low high : Nat) : Bool :=
  match bytes[i]? with
  | some b => low ≤ b.toNat && b.toNat ≤ high
  | none => false

/-- The low six bits of the byte at position `i`. -/
def lowBits (bytes : List UInt8) (i : Nat) : Nat := ((bytes[i]?).getD 0).toNat % 64

/-- Reads the head of the bytes that start with `b`. The second byte of a long form is bounded so
that no character has two forms and surrogates have none. -/
def utf8Step (b : UInt8) (rest : List UInt8) : Utf8Step :=
  let n := b.toNat
  let later := byteIn rest
  if n < 0x80 then .char (Char.ofNat n) 1
  else if 0xC2 ≤ n && n ≤ 0xDF then
    if later 0 0x80 0xBF then .char (Char.ofNat (n % 32 * 64 + lowBits rest 0)) 2 else .fault 1
  else if 0xE0 ≤ n && n ≤ 0xEF then
    let low := if n == 0xE0 then 0xA0 else 0x80
    let high := if n == 0xED then 0x9F else 0xBF
    if !later 0 low high then .fault 1
    else if !later 1 0x80 0xBF then .fault 2
    else .char (Char.ofNat (n % 16 * 4096 + lowBits rest 0 * 64 + lowBits rest 1)) 3
  else if 0xF0 ≤ n && n ≤ 0xF4 then
    let low := if n == 0xF0 then 0x90 else 0x80
    let high := if n == 0xF4 then 0x8F else 0xBF
    if !later 0 low high then .fault 1
    else if !later 1 0x80 0xBF then .fault 2
    else if !later 2 0x80 0xBF then .fault 3
    else .char (Char.ofNat
      (n % 8 * 262144 + lowBits rest 0 * 4096 + lowBits rest 1 * 64 + lowBits rest 2)) 4
  else .fault 1

/-- The text of the bytes, with a replacement character for each fault. -/
def decodeUtf8Lossy : List UInt8 → List Char
  | [] => []
  | b :: rest =>
    match utf8Step b rest with
    | .char c size => c :: decodeUtf8Lossy (rest.drop (size - 1))
    | .fault size => replacement :: decodeUtf8Lossy (rest.drop (size - 1))
  termination_by bytes => bytes.length
  decreasing_by all_goals simp only [List.length_drop, List.length_cons]; omega

/-- The text of the bytes, if they are UTF-8 throughout. -/
def decodeUtf8? : List UInt8 → Option (List Char)
  | [] => some []
  | b :: rest =>
    match utf8Step b rest with
    | .char c size => (decodeUtf8? (rest.drop (size - 1))).map (c :: ·)
    | .fault _ => none
  termination_by bytes => bytes.length
  decreasing_by all_goals simp only [List.length_drop, List.length_cons]; omega

end SnippetRunner.Text

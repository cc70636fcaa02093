/-
# `Client.Base64` — the encoder and the decoder of the client

`encode` turns three bytes at a time into four characters, with zeros for bytes
that are not there, and puts the `=` over the end afterwards.  `decode_encode`
says that a standard decoder gets the bytes back, for every length.

The client's own `decode` takes the `=` for one more character.  It gets the
bytes back as well, but then come the bytes of the padding, and the terminator
only after these: `decode_encode_buffer` says what the whole buffer holds.
-/
import CaptureHpc.Lib.Base64
import Mathlib.Algebra.Ring.Nat

namespace CaptureHpc.Client.Base64

open StandardBase64

/-- `block`, with zeros for what is behind the end. -/
def block (a b c : Nat) : Nat := a <<< 16 ||| b <<< 8 ||| c

/-- The four characters of a block; `b64_list` is the standard alphabet. -/
def quad (block : Nat) : List Char :=
  [char ((block >>> 18) &&& 0x3F), char ((block >>> 12) &&& 0x3F), char ((block >>> 6) &&& 0x3F),
    char (block &&& 0x3F)]

/-- The loop over the blocks. -/
def encodeLoop : List UInt8 → List Char
  | [] => []
  | [a] => quad (block a.toNat 0 0)
  | [a, b] => quad (block a.toNat b.toNat 0)
  | a :: b :: c :: rest => quad (block a.toNat b.toNat c.toNat) ++ encodeLoop rest

/-- The loop that writes the padding: position `k-(3-i)` for each `i` from the remainder on. -/
def pad (remainder : Nat) (encodedBuffer : List Char) : List Char :=
  if 0 < remainder then
    (List.range' remainder (3 - remainder)).foldl
      (fun buffer i => buffer.set (buffer.length - (3 - i)) '=') encodedBuffer
  else encodedBuffer

def encode (cleartextBuffer : List UInt8) : List Char :=
  pad (cleartextBuffer.length % 3) (encodeLoop cleartextBuffer)

/-! ## Blocks -/

theorem block_eq {a b c : Nat} (hb : b < 256) (hc : c < 256) :
    block a b c = a * 65536 + b * 256 + c := by
  have hhigh : a <<< 16 ||| b <<< 8 = a * 65536 + b * 256 := by
    have h := Nat.two_pow_add_eq_or_of_lt (i := 16) (b := b <<< 8) (by
      rw [Nat.shiftLeft_eq]
      omega) a
    rw [Nat.shiftLeft_eq a, Nat.mul_comm, ← h, Nat.shiftLeft_eq]
  have h := Nat.two_pow_add_eq_or_of_lt (i := 8) (b := c) (by omega) (a * 256 + b)
  rw [block, hhigh, show a * 65536 + b * 256 = 2 ^ 8 * (a * 256 + b) by omega, ← h]

/-- The sixes of bits of a block. -/
theorem quad_block {a b c : Nat} (hb : b < 256) (hc : c < 256) (ha : a < 256) :
    quad (block a b c) = [char (a / 4), char (a % 4 * 16 + b / 16), char (b % 16 * 4 + c / 64),
      char (c % 64)] := by
  have hmask : ∀ n, n &&& 0x3F = n % 64 := fun n => by
    rw [show (0x3F : Nat) = 2 ^ 6 - 1 by rfl, Nat.and_two_pow_sub_one_eq_mod]
  rw [block_eq hb hc, quad]
  have h1 : (a * 65536 + b * 256 + c) / 2 ^ 18 % 64 = a / 4 := by omega
  have h2 : (a * 65536 + b * 256 + c) / 2 ^ 12 % 64 = a % 4 * 16 + b / 16 := by omega
  have h3 : (a * 65536 + b * 256 + c) / 2 ^ 6 % 64 = b % 16 * 4 + c / 64 := by omega
  have h4 : (a * 65536 + b * 256 + c) % 64 = c % 64 := by omega
  simp only [hmask, Nat.shiftRight_eq_div_pow, h1, h2, h3, h4]

theorem ofNat_eq {a : UInt8} {n : Nat} (h : n = a.toNat) : UInt8.ofNat n = a := by
  rw [h, UInt8.ofNat_toNat]

/-- A block in front. -/
theorem decode_quad (a b c : UInt8) (rest : List Char) :
    decode (quad (block a.toNat b.toNat c.toNat) ++ rest) =
      (decode rest).map ([a, b, c] ++ ·) := by
  have ha := a.toNat_lt
  have hb := b.toNat_lt
  have hc := c.toNat_lt
  rw [quad_block hb hc ha]
  simp only [List.cons_append, List.nil_append]
  rw [decode_group (by omega) (by omega) (by omega) (by omega), ofNat_eq (a := a) (by omega),
    ofNat_eq (a := b) (by omega), ofNat_eq (a := c) (by omega)]
  rfl

/-! ## The padding -/

theorem pad_one (x y z w : Char) : pad 1 [x, y, z, w] = [x, y, '=', '='] := rfl

theorem pad_two (x y z w : Char) : pad 2 [x, y, z, w] = [x, y, z, '='] := rfl

/-- It stays within the last three characters. -/
theorem set_append {front back : List Char} {j : Nat} (hj : j ≤ back.length) (c : Char) :
    (front ++ back).set ((front ++ back).length - j) c = front ++ back.set (back.length - j) c := by
  rw [List.length_append, List.set_append_right _ _ (by omega)]
  congr 2
  omega

theorem pad_append (r : Nat) {front back : List Char} (hback : 3 ≤ back.length) :
    pad r (front ++ back) = front ++ pad r back := by
  unfold pad
  split
  next hpos =>
    have hall : ∀ (is : List Nat) (back : List Char), 3 ≤ back.length →
        is.foldl (fun buffer i => buffer.set (buffer.length - (3 - i)) '=') (front ++ back) =
          front ++ is.foldl (fun buffer i => buffer.set (buffer.length - (3 - i)) '=') back := by
      intro is
      induction is with
      | nil => exact fun _ _ => rfl
      | cons i is ih =>
          intro back hback
          rw [List.foldl_cons, List.foldl_cons, set_append (by omega)]
          exact ih _ (by rwa [List.length_set])
    exact hall _ _ hback
  next => rfl

theorem length_encodeLoop : ∀ {bytes : List UInt8}, bytes ≠ [] → 3 ≤ (encodeLoop bytes).length
  | [], h => absurd rfl h
  | [_], _ => by simp [encodeLoop, quad]
  | [_, _], _ => by simp [encodeLoop, quad]
  | _ :: _ :: _ :: _, _ => by simp [encodeLoop, quad]

theorem encode_cons (a b c : UInt8) (rest : List UInt8) :
    encode (a :: b :: c :: rest) = quad (block a.toNat b.toNat c.toNat) ++ encode rest := by
  have hlength : (a :: b :: c :: rest).length % 3 = rest.length % 3 := by
    simp only [List.length_cons]
    omega
  rw [encode, hlength, encodeLoop]
  cases rest with
  | nil => rfl
  | cons d rest => exact pad_append _ (length_encodeLoop (by simp))

/-- **A standard decoder gets the bytes back.** -/
theorem decode_encode : ∀ bytes : List UInt8, decode (encode bytes) = some bytes
  | [] => rfl
  | [a] => by
      have ha := a.toNat_lt
      show decode (pad 1 (quad (block a.toNat 0 0))) = _
      rw [quad_block (by decide) (by decide) ha, pad_one, decode_last (group_one (by omega) (by omega)),
        ofNat_eq (a := a) (by omega)]
  | [a, b] => by
      have ha := a.toNat_lt
      have hb := b.toNat_lt
      show decode (pad 2 (quad (block a.toNat b.toNat 0))) = _
      rw [quad_block hb (by decide) ha, pad_two,
        decode_last (group_two (by omega) (by omega) (by omega)), ofNat_eq (a := a) (by omega),
        ofNat_eq (a := b) (by omega)]
  | a :: b :: c :: rest => by
      rw [encode_cons, decode_quad, decode_encode rest]
      rfl

/-! ## The decoder -/

/-- `XX`, for a character that is not in the alphabet. -/
def XX : Nat := 100

/-- The table, as it stands: the last sixteen entries are not written there and so are zero. -/
def b64_index : List Nat :=
  List.replicate 43 XX ++ [62, XX, XX, XX, 63] ++
    [52, 53, 54, 55, 56, 57, 58, 59, 60, 61] ++ List.replicate 7 XX ++
    List.range' 0 26 ++ List.replicate 6 XX ++ List.range' 26 26 ++ List.replicate 117 XX ++
    List.replicate 16 0

/-- A look into the table.  A `char` from 128 on is a negative index. -/
def index (c : Char) : Option Nat := if c.toNat < 128 then b64_index[c.toNat]? else none

/-- Memory from `malloc`: a byte that was never written has no value. -/
abbrev Buffer := List (Option UInt8)

/-- The first byte of a block. -/
def firstByte (e₀ e₁ : Char) : Option UInt8 := do
  let x ← index e₀
  let y ← index e₁
  return UInt8.ofNat (x <<< 2 ||| y >>> 4)

def secondByte (e₁ e₂ : Char) : Option UInt8 := do
  let y ← index e₁
  let z ← index e₂
  return UInt8.ofNat (y <<< 4 ||| z >>> 2)

def thirdByte (e₂ e₃ : Char) : Option UInt8 := do
  let z ← index e₂
  let w ← index e₃
  return UInt8.ofNat (z <<< 6 ||| w)

/-- What the loop writes, in this order: three bytes whenever four characters are read. -/
def decodeLoop : List Char → Buffer
  | e₀ :: e₁ :: e₂ :: e₃ :: rest =>
      firstByte e₀ e₁ :: secondByte e₁ e₂ :: thirdByte e₂ e₃ :: decodeLoop rest
  | _ => []

/-- `buffer` and `position`. -/
structure Output where
  buffer : Buffer
  position : Nat

/-- `buffer[position++] = byte`. -/
def Output.put (out : Output) (byte : Option UInt8) : Output :=
  { buffer := out.buffer.set out.position byte, position := out.position + 1 }

/-- The text up to the null. -/
def cString (memory : List Char) : List Char := memory.takeWhile (· != '\x00')

def decode (encodedBuffer : List Char) : Buffer :=
  let text := cString encodedBuffer
  let len := text.length
  let out := (decodeLoop text).foldl Output.put
    { buffer := List.replicate len none, position := 0 }
  if out.position < len then out.buffer.set out.position (some 0) else out.buffer

/-! ## What is in the buffer -/

/-- Writing from a position on. -/
theorem foldl_put (bytes : Buffer) : ∀ {front back : Buffer}, bytes.length ≤ back.length →
    bytes.foldl Output.put { buffer := front ++ back, position := front.length } =
      { buffer := front ++ bytes ++ back.drop bytes.length
        position := front.length + bytes.length } := by
  induction bytes with
  | nil =>
      intro front back _
      simp
  | cons byte bytes ih =>
      intro front back hroom
      cases back with
      | nil => exact absurd hroom (Nat.not_succ_le_zero _)
      | cons old back =>
          have hput : Output.put { buffer := front ++ old :: back, position := front.length } byte =
              { buffer := (front ++ [byte]) ++ back, position := (front ++ [byte]).length } := by
            simp [Output.put]
          rw [List.foldl_cons, hput, ih (Nat.le_of_succ_le_succ hroom)]
          simp only [List.append_assoc, List.cons_append, List.nil_append, List.length_append,
            List.length_cons, List.length_nil, List.drop_succ_cons, Output.mk.injEq, true_and]
          omega

theorem length_decodeLoop : ∀ text : List Char, (decodeLoop text).length = 3 * (text.length / 4)
  | [] => rfl
  | [_] => by simp [decodeLoop]
  | [_, _] => by simp [decodeLoop]
  | [_, _, _] => by simp [decodeLoop]
  | _ :: _ :: _ :: _ :: rest => by
      simp only [decodeLoop, List.length_cons, length_decodeLoop rest]
      omega

/-- The loop stays within the buffer, and the terminator comes behind what it wrote. -/
theorem decode_eq {text : List Char} (hnull : '\x00' ∉ text) (hne : text ≠ []) :
    ∃ rest, decode (text ++ ['\x00']) = decodeLoop text ++ some 0 :: rest := by
  have hpos : 0 < text.length := List.length_pos_of_ne_nil hne
  have htext : cString (text ++ ['\x00']) = text := by
    have hall : ∀ c ∈ text, (c != '\x00') = true := by
      intro c hc
      exact bne_iff_ne.mpr fun h => hnull (h ▸ hc)
    rw [cString, List.takeWhile_append_of_pos hall]
    exact List.append_nil _
  have hlength := length_decodeLoop text
  have hroom : (decodeLoop text).length ≤ (List.replicate text.length (none : Option UInt8)).length := by
    rw [List.length_replicate]
    omega
  have hout := @foldl_put (decodeLoop text) [] _ hroom
  rw [List.nil_append] at hout
  have hlt : (decodeLoop text).length < text.length := by omega
  refine ⟨List.replicate (text.length - (decodeLoop text).length - 1) none, ?_⟩
  have hback : List.replicate (text.length - (decodeLoop text).length) (none : Option UInt8) =
      none :: List.replicate (text.length - (decodeLoop text).length - 1) none := by
    rw [← List.replicate_succ, Nat.sub_add_cancel (by omega)]
  simp only [decode, htext, List.length_nil] at hout ⊢
  rw [hout]
  simp only [List.nil_append, List.drop_replicate, Nat.zero_add, if_pos hlt, hback]
  rw [List.set_append_right _ _ (Nat.le_refl _), Nat.sub_self]
  rfl

theorem index_char {n : Nat} (h : n < 64) : index (char n) = some n := by
  have hall : ∀ n < 64, index (char n) = some n := by decide +kernel
  exact hall n h

theorem index_pad : index '=' = some XX := by decide

theorem char_ne_null {n : Nat} (h : n < 64) : char n ≠ '\x00' := by
  intro heq
  have hindex : some n = some XX := by
    rw [← index_char h, heq]
    decide
  exact absurd (Option.some.inj hindex) (Nat.ne_of_lt (Nat.lt_trans h (by decide)))

/-- `|` adds where the upper bits are above the lower. -/
theorem shift_or {q r k : Nat} (hr : r < 2 ^ k) : q <<< k ||| r = q * 2 ^ k + r := by
  rw [Nat.shiftLeft_eq, Nat.mul_comm, ← Nat.two_pow_add_eq_or_of_lt hr]

/-- The bits of a byte are those below 256. -/
theorem ofNat_mod {a : UInt8} {n : Nat} (h : n % 256 = a.toNat) : UInt8.ofNat n = a := by
  rw [← UInt8.toNat_inj, UInt8.toNat_ofNat', ← h]

section Bytes
variable {e e' : Char} {x y : Nat}

theorem firstByte_eq (hx : index e = some x) (hy : index e' = some y) (hlt : y < 64) :
    firstByte e e' = some (UInt8.ofNat (x * 4 + y / 16)) := by
  have hor : x <<< 2 ||| y >>> 4 = x * 4 + y / 16 := by
    rw [Nat.shiftRight_eq_div_pow]
    exact shift_or (k := 2) (by omega)
  rw [firstByte, hx, hy, ← hor]
  rfl

theorem secondByte_eq (hx : index e = some x) (hy : index e' = some y) (hlt : y < 64) :
    secondByte e e' = some (UInt8.ofNat (x * 16 + y / 4)) := by
  have hor : x <<< 4 ||| y >>> 2 = x * 16 + y / 4 := by
    rw [Nat.shiftRight_eq_div_pow]
    exact shift_or (k := 4) (by omega)
  rw [secondByte, hx, hy, ← hor]
  rfl

theorem thirdByte_eq (hx : index e = some x) (hy : index e' = some y) (hlt : y < 64) :
    thirdByte e e' = some (UInt8.ofNat (x * 64 + y)) := by
  have hor : x <<< 6 ||| y = x * 64 + y := shift_or (k := 6) hlt
  rw [thirdByte, hx, hy, ← hor]
  rfl

/-- What is shifted out of the byte does not matter. -/
theorem ofNat_shifted {k n : Nat} {r : UInt8} (hn : n * 2 ^ k = 2 ^ 8) :
    UInt8.ofNat ((x * n) <<< k ||| r.toNat) = r := by
  have hshift : (x * n) <<< k = x <<< 8 := by
    rw [Nat.shiftLeft_eq, Nat.shiftLeft_eq, Nat.mul_assoc, hn]
  have hlt : r.toNat < 2 ^ 8 := r.toNat_lt
  have hor : x <<< 8 ||| r.toNat = x * 2 ^ 8 + r.toNat := shift_or hlt
  refine ofNat_mod ?_
  rw [hshift, hor]
  omega

/-- `XX` is more than six bits: what it has in a byte is 25 after a shift by two, else 100. -/
theorem secondByte_pad (hx : index e = some (x * 16)) : secondByte e '=' = some 25 := by
  have hbyte : UInt8.ofNat ((x * 16) <<< 4 ||| XX >>> 2) = 25 := ofNat_shifted (r := 25) rfl
  rw [secondByte, hx, index_pad, ← hbyte]
  rfl

theorem thirdByte_pad (hx : index e = some (x * 4)) : thirdByte e '=' = some 100 := by
  have hbyte : UInt8.ofNat ((x * 4) <<< 6 ||| XX) = 100 := ofNat_shifted (r := 100) rfl
  rw [thirdByte, hx, index_pad, ← hbyte]
  rfl

end Bytes

theorem decodeLoop_quad (a b c : UInt8) (rest : List Char) :
    decodeLoop (quad (block a.toNat b.toNat c.toNat) ++ rest) =
      some a :: some b :: some c :: decodeLoop rest := by
  have ha := a.toNat_lt
  have hb := b.toNat_lt
  have hc := c.toNat_lt
  rw [quad_block hb hc ha]
  simp only [List.cons_append, List.nil_append, decodeLoop]
  rw [firstByte_eq (index_char (by omega)) (index_char (by omega)) (by omega),
    secondByte_eq (index_char (by omega)) (index_char (by omega)) (by omega),
    thirdByte_eq (index_char (by omega)) (index_char (by omega)) (by omega),
    ofNat_mod (a := a) (by omega), ofNat_mod (a := b) (by omega), ofNat_mod (a := c) (by omega)]

/-- What the decoder makes of the padding: the bits of `XX` that fall into the bytes. -/
def afterwards (remainder : Nat) : Buffer :=
  if remainder = 1 then [some 25, some 100] else if remainder = 2 then [some 100] else []

theorem decodeLoop_encode : ∀ bytes : List UInt8,
    decodeLoop (encode bytes) = bytes.map some ++ afterwards (bytes.length % 3)
  | [] => rfl
  | [a] => by
      have ha := a.toNat_lt
      show decodeLoop (pad 1 (quad (block a.toNat 0 0))) = _
      have hsecond : index (char (a.toNat % 4 * 16 + 0 / 16)) = some (a.toNat % 4 * 16) :=
        index_char (by omega)
      rw [quad_block (by decide) (by decide) ha, pad_one, decodeLoop,
        firstByte_eq (index_char (by omega)) hsecond (by omega), secondByte_pad hsecond,
        thirdByte_pad (x := 25) index_pad, ofNat_mod (a := a) (by omega)]
      rfl
  | [a, b] => by
      have ha := a.toNat_lt
      have hb := b.toNat_lt
      show decodeLoop (pad 2 (quad (block a.toNat b.toNat 0))) = _
      have hthird : index (char (b.toNat % 16 * 4 + 0 / 64)) = some (b.toNat % 16 * 4) :=
        index_char (by omega)
      rw [quad_block hb (by decide) ha, pad_two, decodeLoop,
        firstByte_eq (index_char (by omega)) (index_char (by omega)) (by omega),
        secondByte_eq (index_char (by omega)) hthird (by omega), thirdByte_pad hthird,
        ofNat_mod (a := a) (by omega), ofNat_mod (a := b) (by omega)]
      rfl
  | a :: b :: c :: rest => by
      have hlength : (a :: b :: c :: rest).length % 3 = rest.length % 3 := by
        simp only [List.length_cons]
        omega
      rw [encode_cons, decodeLoop_quad, decodeLoop_encode rest, hlength]
      rfl

theorem encode_ne_nil : ∀ {bytes : List UInt8}, bytes ≠ [] → encode bytes ≠ []
  | [], h => absurd rfl h
  | [a], _ => by simp [encode, encodeLoop, quad, pad_one]
  | [a, b], _ => by simp [encode, encodeLoop, quad, pad_two]
  | a :: b :: c :: rest, _ => by simp [encode_cons, quad]

theorem null_not_mem_quad (n : Nat) : '\x00' ∉ quad n := by
  have hchar : ∀ m, '\x00' ≠ char (m &&& 0x3F) := fun m h =>
    char_ne_null (Nat.and_lt_two_pow (n := 6) m (by decide)) h.symm
  simp only [quad, List.mem_cons, List.not_mem_nil, or_false, not_or]
  exact ⟨hchar _, hchar _, hchar _, hchar _⟩

theorem mem_pad {r : Nat} {buffer : List Char} {c : Char} (h : c ∈ pad r buffer) :
    c ∈ buffer ∨ c = '=' := by
  unfold pad at h
  split at h
  next hpos =>
    have hall : ∀ (is : List Nat) (buffer : List Char),
        c ∈ is.foldl (fun buffer i => buffer.set (buffer.length - (3 - i)) '=') buffer →
          c ∈ buffer ∨ c = '=' := by
      intro is
      induction is with
      | nil => exact fun _ h => .inl h
      | cons i is ih =>
          intro buffer h
          cases ih _ h with
          | inl hset => exact List.mem_or_eq_of_mem_set hset
          | inr heq => exact .inr heq
    exact hall _ _ h
  next => exact .inl h

theorem null_not_mem_encodeLoop : ∀ bytes : List UInt8, '\x00' ∉ encodeLoop bytes
  | [] => List.not_mem_nil
  | [_] => null_not_mem_quad _
  | [_, _] => null_not_mem_quad _
  | _ :: _ :: _ :: rest => by
      rw [encodeLoop, List.mem_append]
      exact fun h => h.elim (null_not_mem_quad _) (null_not_mem_encodeLoop rest)

theorem null_not_mem_encode (bytes : List UInt8) : '\x00' ∉ encode bytes := by
  intro h
  cases mem_pad h with
  | inl hloop => exact null_not_mem_encodeLoop bytes hloop
  | inr heq => exact absurd heq (by decide)

/-! ## There and back -/

/-- The buffer that `decode` returns for a text of `encode`. -/
def decoded (bytes : List UInt8) : Buffer := decode (encode bytes ++ ['\x00'])

/-- **The bytes, what the padding became, and only then the terminator.**  For no bytes at all
there is no room for one. -/
theorem decode_encode_buffer {bytes : List UInt8} (hne : bytes ≠ []) :
    ∃ rest, decoded bytes =
      bytes.map some ++ (afterwards (bytes.length % 3) ++ some 0 :: rest) := by
  obtain ⟨rest, h⟩ := decode_eq (null_not_mem_encode bytes) (encode_ne_nil hne)
  exact ⟨rest, by rw [decoded, h, decodeLoop_encode, List.append_assoc]⟩

/-- The bytes are always there. -/
theorem decoded_take (bytes : List UInt8) :
    (decoded bytes).take bytes.length = bytes.map some := by
  by_cases hne : bytes = []
  · subst hne
    rfl
  · obtain ⟨rest, h⟩ := decode_encode_buffer hne
    rw [h, List.take_left' (List.length_map _)]

/-- **The bytes come back with a null behind them just when there are some, and no padding.** -/
theorem terminated_iff (bytes : List UInt8) :
    ((decoded bytes).take bytes.length = bytes.map some ∧
        (decoded bytes)[bytes.length]? = some (some 0)) ↔
      bytes ≠ [] ∧ bytes.length % 3 = 0 := by
  rw [and_iff_right (decoded_take bytes)]
  by_cases hne : bytes = []
  · subst hne
    decide
  obtain ⟨rest, h⟩ := decode_encode_buffer hne
  have hbehind : (decoded bytes)[bytes.length]? =
      (afterwards (bytes.length % 3) ++ some 0 :: rest)[0]? := by
    rw [h, List.getElem?_append_right (by simp)]
    simp
  have hcases : bytes.length % 3 = 0 ∨ bytes.length % 3 = 1 ∨ bytes.length % 3 = 2 := by omega
  rw [and_iff_right hne, hbehind]
  -- the byte behind is 25 or 100 if there is padding
  rcases hcases with h | h | h
  · simp [h, afterwards]
  · simp [h, afterwards]
  · simp [h, afterwards]

/-- One byte: 25 and 100 stand where the terminator should be. -/
theorem one_byte_not_terminated :
    decoded [65] = [some 65, some 25, some 100, some 0] ∧
      ¬ ((decoded [65]).take 1 = [65].map some ∧ (decoded [65])[1]? = some (some 0)) := by
  decide

end CaptureHpc.Client.Base64

import Mathlib.Data.List.Basic

/-!
# Base64 with padding

Three bytes are four characters, and a last group that is not full is padded. `decode`
insists on the padding, and on zeros in the bits that are left over there.
-/

namespace Base64

def alphabet : List Char :=
  "ABCDEFGHIJKLMNOPQRSTUVWXYZabcdefghijklmnopqrstuvwxyz0123456789+/".toList

/-- The character of six bits. -/
def digit (n : ℕ) : Char := alphabet.getD n '='

/-- The six bits of a character. -/
def value (c : Char) : Option ℕ := alphabet.findIdx? (· = c)

/-! The six bits of the characters that three bytes stand for. -/

def bits₁ (a : UInt8) : ℕ := a.toNat / 4

def bits₂ (a b : UInt8) : ℕ := a.toNat % 4 * 16 + b.toNat / 16

def bits₃ (b c : UInt8) : ℕ := b.toNat % 16 * 4 + c.toNat / 64

def bits₄ (c : UInt8) : ℕ := c.toNat % 64

def encode : List UInt8 → List Char
  | [] => []
  | [a] => [digit (bits₁ a), digit (bits₂ a 0), '=', '=']
  | [a, b] => [digit (bits₁ a), digit (bits₂ a b), digit (bits₃ b 0), '=']
  | a :: b :: c :: bytes =>
    digit (bits₁ a) :: digit (bits₂ a b) :: digit (bits₃ b c) :: digit (bits₄ c) ::
      encode bytes

/-! The bytes that four characters stand for. -/

def byte₁ (w x : ℕ) : UInt8 := UInt8.ofNat (w * 4 + x / 16)

def byte₂ (x y : ℕ) : UInt8 := UInt8.ofNat (x % 16 * 16 + y / 4)

def byte₃ (y z : ℕ) : UInt8 := UInt8.ofNat (y % 4 * 64 + z)

/-- The last group, when it is padded. -/
def decodeLast (w x y : Char) : Option (List UInt8) := do
  let w ← value w
  let x ← value x
  if y = '=' then
    if x % 16 = 0 then some [byte₁ w x] else none
  else
    let y ← value y
    if y % 4 = 0 then some [byte₁ w x, byte₂ x y] else none

def decode : List Char → Option (List UInt8)
  | [] => some []
  | [w, x, y, '='] => decodeLast w x y
  | w :: x :: y :: z :: text => do
    let w ← value w
    let x ← value x
    let y ← value y
    let z ← value z
    let bytes ← decode text
    some (byte₁ w x :: byte₂ x y :: byte₃ y z :: bytes)
  | _ => none

/-- The digits are told apart, and none of them is the padding. -/
theorem digit_spec : ∀ n < 64, value (digit n) = some n ∧ digit n ∈ alphabet ∧ digit n ≠ '=' := by
  decide +kernel

theorem bits₁_lt (a : UInt8) : bits₁ a < 64 := by
  have ha := a.toNat_lt
  unfold bits₁
  omega

theorem bits₂_lt (a b : UInt8) : bits₂ a b < 64 := by
  have hb := b.toNat_lt
  unfold bits₂
  omega

theorem bits₃_lt (b c : UInt8) : bits₃ b c < 64 := by
  have hc := c.toNat_lt
  unfold bits₃
  omega

theorem bits₄_lt (c : UInt8) : bits₄ c < 64 := by
  unfold bits₄
  omega

theorem byte₁_bits (a b : UInt8) : byte₁ (bits₁ a) (bits₂ a b) = a := by
  have hb := b.toNat_lt
  have hbits : bits₁ a * 4 + bits₂ a b / 16 = a.toNat := by
    unfold bits₁ bits₂
    omega
  rw [byte₁, hbits, UInt8.ofNat_toNat]

theorem byte₂_bits (a b c : UInt8) : byte₂ (bits₂ a b) (bits₃ b c) = b := by
  have hb := b.toNat_lt
  have hc := c.toNat_lt
  have hbits : bits₂ a b % 16 * 16 + bits₃ b c / 4 = b.toNat := by
    unfold bits₂ bits₃
    omega
  rw [byte₂, hbits, UInt8.ofNat_toNat]

theorem byte₃_bits (b c : UInt8) : byte₃ (bits₃ b c) (bits₄ c) = c := by
  have hc := c.toNat_lt
  have hbits : bits₃ b c % 4 * 64 + bits₄ c = c.toNat := by
    unfold bits₃ bits₄
    omega
  rw [byte₃, hbits, UInt8.ofNat_toNat]

/-- The text consists of digits and padding. -/
theorem mem_encode {bytes : List UInt8} : ∀ c ∈ encode bytes, c ∈ alphabet ∨ c = '=' := by
  have hdigit {n : ℕ} (hn : n < 64) : digit n ∈ alphabet ∨ digit n = '=' :=
    Or.inl (digit_spec n hn).2.1
  fun_induction encode bytes with
  | case1 => simp
  | case2 a => simp [hdigit (bits₁_lt a), hdigit (bits₂_lt a 0)]
  | case3 a b => simp [hdigit (bits₁_lt a), hdigit (bits₂_lt a b), hdigit (bits₃_lt b 0)]
  | case4 a b c bytes ih =>
      simpa [hdigit (bits₁_lt a), hdigit (bits₂_lt a b), hdigit (bits₃_lt b c),
        hdigit (bits₄_lt c)] using ih

/-- What is written is read back. -/
theorem decode_encode (bytes : List UInt8) : decode (encode bytes) = some bytes := by
  fun_induction encode bytes with
  | case1 => rfl
  | case2 a =>
      have h₁ := (digit_spec _ (bits₁_lt a)).1
      have h₂ := (digit_spec _ (bits₂_lt a 0)).1
      have hrest : bits₂ a 0 % 16 = 0 := by
        simp [bits₂]
      simp [decode, decodeLast, h₁, h₂, hrest, byte₁_bits]
  | case3 a b =>
      have h₁ := (digit_spec _ (bits₁_lt a)).1
      have h₂ := (digit_spec _ (bits₂_lt a b)).1
      obtain ⟨h₃, -, hne⟩ := digit_spec _ (bits₃_lt b 0)
      have hrest : bits₃ b 0 % 4 = 0 := by
        simp [bits₃]
      simp [decode, decodeLast, h₁, h₂, h₃, hne, hrest, byte₁_bits, byte₂_bits]
  | case4 a b c bytes ih =>
      have h₁ := (digit_spec _ (bits₁_lt a)).1
      have h₂ := (digit_spec _ (bits₂_lt a b)).1
      have h₃ := (digit_spec _ (bits₃_lt b c)).1
      obtain ⟨h₄, -, hne⟩ := digit_spec _ (bits₄_lt c)
      -- the fourth character is no padding, so the group is a full one
      rw [decode]
      · simp [h₁, h₂, h₃, h₄, ih, byte₁_bits, byte₂_bits, byte₃_bits]
      · simp [hne]

end Base64

namespace SegmentedMessage.LittleEndian

def encode : Nat → Nat → List UInt8
  | 0, _ => []
  | w + 1, v => UInt8.ofNat (v % 256) :: encode w (v / 256)

def decode : List UInt8 → Nat
  | [] => 0
  | b :: bs => b.toNat + 256 * decode bs

/-- How many numbers `w` bytes can tell apart. -/
def span : Nat → Nat
  | 0 => 1
  | w + 1 => 256 * span w

@[simp] theorem length_encode (w v : Nat) : (encode w v).length = w := by
  induction w generalizing v with
  | zero => rfl
  | succ w ih => simp [encode, ih]

theorem decode_encode (w v : Nat) : decode (encode w v) = v % span w := by
  induction w generalizing v with
  | zero => simp [encode, decode, span, Nat.mod_one]
  | succ w ih =>
      have hb : (UInt8.ofNat (v % 256)).toNat = v % 256 := by simp
      rw [encode, decode, ih, hb, span, Nat.mod_mul]

theorem decode_encode_of_lt {w v : Nat} (h : v < span w) : decode (encode w v) = v := by
  rw [decode_encode, Nat.mod_eq_of_lt h]

theorem encode_decode (bs : List UInt8) : encode bs.length (decode bs) = bs := by
  induction bs with
  | nil => rfl
  | cons b bs ih =>
      have hb : b.toNat < 256 := b.toNat_lt
      have hlow : (b.toNat + 256 * decode bs) % 256 = b.toNat := by omega
      have hhigh : (b.toNat + 256 * decode bs) / 256 = decode bs := by omega
      simp [encode, decode, hlow, hhigh, ih]

theorem decode_lt (bs : List UInt8) : decode bs < span bs.length := by
  induction bs with
  | nil => decide
  | cons b bs ih =>
      have hb : b.toNat < 256 := b.toNat_lt
      rw [decode, List.length_cons, span]
      omega

theorem decode_replicate_zero (n : Nat) : decode (List.replicate n 0) = 0 := by
  induction n with
  | zero => rfl
  | succ n ih => simp [List.replicate_succ, decode, ih]

end SegmentedMessage.LittleEndian

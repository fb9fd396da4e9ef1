import SegmentedMessage.Bytes.Buffer
import SegmentedMessage.Fault
import SegmentedMessage.Layout.PointerWord

namespace SegmentedMessage.PointerWord

def decode? (b : ByteArray) : Option PointerWord :=
  if 8 ≤ b.size then some (ofNat (Buffer.getLE b 0 8)) else none

def encodeInto (w : PointerWord) (b : ByteArray) : Except Fault ByteArray :=
  if 8 ≤ b.size then .ok (Buffer.putLE b 0 8 w.toNat) else .error .rawAccess

theorem decode?_encodeInto {w : PointerWord} {b c : ByteArray} (h : w.encodeInto b = .ok c) :
    decode? c = some w := by
  simp only [encodeInto] at h
  split at h
  · rename_i hb
    obtain rfl := Except.ok.inj h
    have hlt : w.toNat < LittleEndian.span 8 := w.toNat_lt
    rw [decode?, Buffer.size_putLE (by omega), if_pos hb, Buffer.getLE_putLE (by omega),
      Nat.mod_eq_of_lt hlt, ofNat_toNat]
  · cases h

end SegmentedMessage.PointerWord

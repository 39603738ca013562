import Mathlib.Logic.Function.Basic
import Mathlib.Data.List.Basic
import Mathlib.Data.List.GetD

/-! Byte-addressed memory: block reads and writes, and what a write leaves alone. -/
namespace ByteMemory

abbrev Byte := BitVec 8

/-- The `n` bytes from address `a` on. -/
def readBytes (m : ℕ → Byte) (a n : ℕ) : List Byte := (List.range n).map fun i => m (a + i)

/-- Store a block of bytes from address `a` on. -/
def writeBytes (m : ℕ → Byte) (a : ℕ) (bs : List Byte) : ℕ → Byte :=
  fun x => if a ≤ x then bs.getD (x - a) (m x) else m x

@[simp] theorem readBytes_length (m : ℕ → Byte) (a n : ℕ) : (readBytes m a n).length = n := by
  simp [readBytes]

theorem writeBytes_at {m : ℕ → Byte} {a i : ℕ} {bs : List Byte} (hi : i < bs.length) :
    writeBytes m a bs (a + i) = bs[i] := by
  simp [writeBytes, hi]

theorem writeBytes_outside {m : ℕ → Byte} {a x : ℕ} {bs : List Byte}
    (h : x < a ∨ a + bs.length ≤ x) : writeBytes m a bs x = m x := by
  unfold writeBytes
  split
  · rw [List.getD_eq_default]
    omega
  · rfl

theorem readBytes_congr {m m' : ℕ → Byte} {a n : ℕ} (h : ∀ i < n, m (a + i) = m' (a + i)) :
    readBytes m a n = readBytes m' a n := by
  apply List.map_congr_left
  intro i hi
  exact h i (List.mem_range.mp hi)

theorem drop_readBytes (m : ℕ → Byte) (a n i : ℕ) :
    (readBytes m a n).drop i = readBytes m (a + i) (n - i) := by
  apply List.ext_getElem
  · simp
  · intro k _ _
    simp [readBytes, Nat.add_assoc]

/-- Reading inside a block just written gives that part of the block. -/
theorem readBytes_writeBytes {m : ℕ → Byte} {a i n : ℕ} (bs : List Byte)
    (h : i + n ≤ bs.length) :
    readBytes (writeBytes m a bs) (a + i) n = (bs.drop i).take n := by
  apply List.ext_getElem
  · simp only [readBytes_length, List.length_take, List.length_drop]
    omega
  · intro k hk _
    have hkn : k < n := by simpa using hk
    simp only [readBytes, List.getElem_map, List.getElem_range, List.getElem_take,
      List.getElem_drop, Nat.add_assoc]
    exact writeBytes_at (by omega)

theorem readBytes_writeBytes_self (m : ℕ → Byte) (a : ℕ) (bs : List Byte) :
    readBytes (writeBytes m a bs) a bs.length = bs := by
  have h := readBytes_writeBytes (m := m) (a := a) (i := 0) (n := bs.length) bs (by simp)
  simpa using h

@[simp] theorem writeBytes_nil (m : ℕ → Byte) (a : ℕ) : writeBytes m a [] = m := by
  funext x
  exact writeBytes_outside (by simp; omega)

theorem writeBytes_singleton (m : ℕ → Byte) (a : ℕ) (b : Byte) :
    writeBytes m a [b] = Function.update m a b := by
  funext x
  rcases eq_or_ne x a with rfl | hne
  · simp [writeBytes]
  · rw [Function.update_of_ne hne, writeBytes_outside]
    simp only [List.length_singleton]
    omega

/-- A block written in two parts. -/
theorem writeBytes_append (m : ℕ → Byte) (a : ℕ) (bs cs : List Byte) :
    writeBytes (writeBytes m a bs) (a + bs.length) cs = writeBytes m a (bs ++ cs) := by
  funext x
  rcases Nat.lt_or_ge x a with hlo | hlo
  · rw [writeBytes_outside (by omega), writeBytes_outside (by omega),
      writeBytes_outside (by omega)]
  · obtain ⟨i, rfl⟩ := Nat.exists_eq_add_of_le hlo
    rcases Nat.lt_or_ge i bs.length with hi | hi
    · rw [writeBytes_outside (by omega), writeBytes_at hi,
        writeBytes_at (by rw [List.length_append]; omega), List.getElem_append_left hi]
    · rcases Nat.lt_or_ge i (bs ++ cs).length with hic | hic
      · obtain ⟨k, rfl⟩ := Nat.exists_eq_add_of_le hi
        rw [List.length_append] at hic
        rw [← Nat.add_assoc, writeBytes_at (by omega), Nat.add_assoc,
          writeBytes_at (by rw [List.length_append]; omega),
          List.getElem_append_right (by omega)]
        simp
      · have hlen : (bs ++ cs).length = bs.length + cs.length := List.length_append
        rw [writeBytes_outside (by omega), writeBytes_outside (by omega),
          writeBytes_outside (by omega)]

/-- The four bytes of a 32-bit word, lowest first. -/
def dwordBytes (v : BitVec 32) : List Byte :=
  [v.extractLsb' 0 8, v.extractLsb' 8 8, v.extractLsb' 16 8, v.extractLsb' 24 8]

/-- The 32-bit word of up to four bytes, lowest first; missing bytes are zero. -/
def dwordOf (bs : List Byte) : BitVec 32 :=
  bs.getD 3 0 ++ (bs.getD 2 0 ++ (bs.getD 1 0 ++ bs.getD 0 0))

def readDword (m : ℕ → Byte) (a : ℕ) : BitVec 32 := dwordOf (readBytes m a 4)

def writeDword (m : ℕ → Byte) (a : ℕ) (v : BitVec 32) : ℕ → Byte := writeBytes m a (dwordBytes v)

@[simp] theorem dwordBytes_length (v : BitVec 32) : (dwordBytes v).length = 4 := rfl

@[simp] theorem dwordOf_dwordBytes (v : BitVec 32) : dwordOf (dwordBytes v) = v := by
  simp only [dwordOf, dwordBytes, List.getD_cons_zero, List.getD_cons_succ]
  apply BitVec.eq_of_getLsbD_eq
  intro i hi
  simp only [BitVec.getLsbD_append, BitVec.getLsbD_extractLsb']
  split_ifs <;> simp <;> grind

theorem dwordBytes_append (a b c d : Byte) :
    dwordBytes (d ++ (c ++ (b ++ a)) : BitVec 32) = [a, b, c, d] := by
  simp only [dwordBytes, List.cons.injEq, and_true]
  refine ⟨?_, ?_, ?_, ?_⟩ <;> apply BitVec.eq_of_getLsbD_eq <;> intro i hi <;>
    simp [BitVec.getLsbD_extractLsb'] <;> grind

/-- A short block read as a word is the block padded with zero bytes. -/
theorem dwordBytes_dwordOf {bs : List Byte} (h : bs.length ≤ 4) :
    dwordBytes (dwordOf bs) = bs ++ List.replicate (4 - bs.length) 0 := by
  rw [dwordOf, dwordBytes_append]
  match bs, h with
  | [], _ => rfl
  | [_], _ => rfl
  | [_, _], _ => rfl
  | [_, _, _], _ => rfl
  | [_, _, _, _], _ => rfl

theorem readDword_writeBytes (m : ℕ → Byte) (a : ℕ) (bs : List Byte) {i : ℕ}
    (h : i + 4 ≤ bs.length) :
    readDword (writeBytes m a bs) (a + i) = dwordOf ((bs.drop i).take 4) := by
  rw [readDword, readBytes_writeBytes bs h]

theorem readDword_writeDword_self (m : ℕ → Byte) (a : ℕ) (v : BitVec 32) :
    readDword (writeDword m a v) a = v := by
  have hread := readBytes_writeBytes_self m a (dwordBytes v)
  rw [dwordBytes_length] at hread
  rw [readDword, writeDword, hread, dwordOf_dwordBytes]

theorem readDword_writeDword_of_le (m : ℕ → Byte) {a b : ℕ} (h : a + 4 ≤ b) (v : BitVec 32) :
    readDword (writeDword m b v) a = readDword m a := by
  have hread : readBytes (writeBytes m b (dwordBytes v)) a 4 = readBytes m a 4 :=
    readBytes_congr fun i hi => writeBytes_outside (by omega)
  rw [readDword, readDword, writeDword, hread]

theorem dwordBytes_readDword (m : ℕ → Byte) (a : ℕ) :
    dwordBytes (readDword m a) = readBytes m a 4 := by
  rw [readDword, dwordBytes_dwordOf (by simp)]
  simp

theorem readBytes_add (m : ℕ → Byte) (a n k : ℕ) :
    readBytes m a (n + k) = readBytes m a n ++ readBytes m (a + n) k := by
  simp [readBytes, List.range_add, List.map_map, Function.comp_def, Nat.add_assoc]

theorem readBytes_succ (m : ℕ → Byte) (a n : ℕ) :
    readBytes m a (n + 1) = readBytes m a n ++ [m (a + n)] :=
  readBytes_add m a n 1

theorem take_readBytes (m : ℕ → Byte) (a n k : ℕ) (h : k ≤ n) :
    (readBytes m a n).take k = readBytes m a k := by
  obtain ⟨j, rfl⟩ := Nat.exists_eq_add_of_le h
  rw [readBytes_add]
  exact List.take_left' (readBytes_length m a k)

end ByteMemory

import Sfc7120.DataPath.Settle

/-! Frames of the benchmark: what `build_frame` leaves in the caller's buffer, and what `swap_mac`
does to a frame that is there. -/
namespace Sfc7120.Bench

open ByteMemory

/-- A buffer of the process, by offset. -/
abbrev Buf := ℕ → Byte

/-- `g_sizes`. -/
def sizes : List ℕ := [64, 1024, 1518]

/-- Bytes of `frame` and `rxbuf`. -/
def bufLen : ℕ := 2048

theorem getD_sizes_mem {i : ℕ} (h : i < sizes.length) : sizes.getD i 0 ∈ sizes := by
  rw [List.getD_eq_getElem _ _ h]
  exact List.getElem_mem h

theorem sizes_bounds {len : ℕ} (h : len ∈ sizes) : 18 ≤ len ∧ len ≤ 1518 := by
  simp only [sizes, List.mem_cons, List.not_mem_nil, or_false] at h
  omega

def ethertype : BitVec 16 := 0x88b5#16

/-- `build_frame`. -/
def buildFrame (frame : Buf) (dst src : List Byte) (len : ℕ) (seq : BitVec 32) : Buf :=
  let frame := writeBytes frame 0 (List.replicate len 0)
  let frame := writeBytes frame 0 dst
  let frame := writeBytes frame 6 src
  let frame := Function.update frame 12 ((ethertype >>> 8).setWidth 8)
  let frame := Function.update frame 13 (ethertype.setWidth 8)
  let frame := writeBytes frame 14 (dwordBytes seq)
  if 18 < len then writeBytes frame 18 (List.replicate (len - 18) 0xa5) else frame

/-- `swap_mac`. -/
def swapMac (frame : Buf) : Buf :=
  let tmp := readBytes frame 0 6
  let frame := writeBytes frame 0 (readBytes frame 6 6)
  writeBytes frame 6 tmp

/-- A benchmark frame: addresses, ethertype, sequence number, filler. -/
def benchFrame (dst src : List Byte) (len : ℕ) (seq : BitVec 32) : Frame :=
  dst ++ src ++ [0x88, 0xb5] ++ dwordBytes seq ++ List.replicate (len - 18) 0xa5

/-- A frame with its two addresses exchanged. -/
def swapped (f : Frame) : Frame := (f.drop 6).take 6 ++ f.take 6 ++ f.drop 12

/-- A block written right behind what is read. -/
theorem readBytes_writeBytes_end (m : Buf) (a : ℕ) (bs : List Byte) :
    readBytes (writeBytes m a bs) 0 (a + bs.length) = readBytes m 0 a ++ bs := by
  rw [readBytes_add, Nat.zero_add, readBytes_writeBytes_self]
  congr 1
  exact readBytes_congr fun i hi => writeBytes_outside (by omega)

/-- `build_frame` writes every byte of the frame, whatever the buffer held. -/
theorem readBytes_buildFrame (frame : Buf) {dst src : List Byte} {len : ℕ} (seq : BitVec 32)
    (hdst : dst.length = 6) (hsrc : src.length = 6) (hlen : 18 ≤ len) :
    readBytes (buildFrame frame dst src len seq) 0 len = benchFrame dst src len seq := by
  obtain ⟨m, hm⟩ : ∃ m, m = writeBytes frame 0 (List.replicate len 0) := ⟨_, rfl⟩
  have hd : readBytes (writeBytes m 0 dst) 0 6 = dst := by
    simpa [hdst, readBytes] using readBytes_writeBytes_end m 0 dst
  have hs := readBytes_writeBytes_end (writeBytes m 0 dst) 6 src
  rw [hsrc, hd] at hs
  obtain ⟨m₂, hm₂⟩ : ∃ m₂, m₂ = writeBytes (writeBytes m 0 dst) 6 src := ⟨_, rfl⟩
  rw [← hm₂] at hs
  have h13 := readBytes_writeBytes_end m₂ 12 [(ethertype >>> 8).setWidth 8]
  have h14 := readBytes_writeBytes_end (writeBytes m₂ 12 [(ethertype >>> 8).setWidth 8]) 13
    [ethertype.setWidth 8]
  have h18 := readBytes_writeBytes_end (writeBytes (writeBytes m₂ 12
    [(ethertype >>> 8).setWidth 8]) 13 [ethertype.setWidth 8]) 14 (dwordBytes seq)
  simp only [List.length_singleton, dwordBytes_length, Nat.reduceAdd] at h13 h14 h18 hs
  rw [h14, h13, hs] at h18
  simp only [buildFrame, ← hm, ← hm₂, ← writeBytes_singleton]
  split_ifs with hlong
  · have hend := readBytes_writeBytes_end (writeBytes (writeBytes (writeBytes m₂ 12
      [(ethertype >>> 8).setWidth 8]) 13 [ethertype.setWidth 8]) 14 (dwordBytes seq)) 18
      (List.replicate (len - 18) 0xa5)
    rw [List.length_replicate, Nat.add_sub_cancel' hlen, h18] at hend
    rw [hend, benchFrame]
    simp [ethertype]
  · obtain rfl : len = 18 := by omega
    rw [h18, benchFrame]
    simp [ethertype]

theorem readBytes_swapMac (frame : Buf) {len : ℕ} (hlen : 12 ≤ len) :
    readBytes (swapMac frame) 0 len = swapped (readBytes frame 0 len) := by
  obtain ⟨k, rfl⟩ := Nat.exists_eq_add_of_le hlen
  have hfront := readBytes_writeBytes_end (writeBytes frame 0 (readBytes frame 6 6)) 6
    (readBytes frame 0 6)
  have hdst := readBytes_writeBytes_end frame 0 (readBytes frame 6 6)
  have hback : readBytes (swapMac frame) 12 k = readBytes frame 12 k := by
    refine readBytes_congr fun i _ => ?_
    simp only [swapMac]
    rw [writeBytes_outside, writeBytes_outside] <;> simp only [readBytes_length] <;> omega
  simp only [readBytes_length, Nat.zero_add] at hfront hdst
  rw [readBytes_add, Nat.zero_add, hback, swapMac, hfront, hdst]
  rw [swapped, drop_readBytes, drop_readBytes, take_readBytes _ _ _ _ (by omega),
    take_readBytes _ _ _ _ (by omega)]
  simp [readBytes]

theorem swapped_benchFrame {dst src : List Byte} (len : ℕ) (seq : BitVec 32)
    (hdst : dst.length = 6) (hsrc : src.length = 6) :
    swapped (benchFrame dst src len seq) = benchFrame src dst len seq := by
  simp [swapped, benchFrame, List.drop_append, hdst, hsrc]

theorem benchFrame_length {dst src : List Byte} {len : ℕ} (seq : BitVec 32)
    (hdst : dst.length = 6) (hsrc : src.length = 6) (hlen : 18 ≤ len) :
    (benchFrame dst src len seq).length = len := by
  simp only [benchFrame, List.length_append, List.length_cons, List.length_nil, dwordBytes_length,
    List.length_replicate, hdst, hsrc]
  omega

theorem benchFrame_dst {dst src : List Byte} (len : ℕ) (seq : BitVec 32) (hdst : dst.length = 6) :
    (benchFrame dst src len seq).take 6 = dst := by
  simp [benchFrame, hdst]

theorem swapped_length {f : Frame} (h : 12 ≤ f.length) : (swapped f).length = f.length := by
  simp only [swapped, List.length_append, List.length_take, List.length_drop]
  omega

end Sfc7120.Bench

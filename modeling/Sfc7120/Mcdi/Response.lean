import Sfc7120.Mcdi.Exec

/-! What a caller of `sfc7120_mcdi_exec` learns from a response, and which dwords of the mailbox
the call touches on the way. -/
namespace Sfc7120.Mcdi

open BitFields ByteMemory

/-- The response echoes the request's sequence number. -/
def seqMatches (m : Mailbox) (seq : BitVec 8) : Prop := hdrSeq (readDword m 0) = seq.setWidth 32

/-- The response has the ERROR bit and no error code: it announces fewer than four bytes, or the
first payload word is zero. -/
def uncodedError (m : Mailbox) (off : ℕ) : Prop :=
  hdrError (readDword m 0) ≠ 0 ∧ (respDatalen m off < 4 ∨ readDword m off = 0)

instance (m : Mailbox) (seq : BitVec 8) : Decidable (seqMatches m seq) :=
  inferInstanceAs (Decidable (_ = _))

instance (m : Mailbox) (off : ℕ) : Decidable (uncodedError m off) :=
  inferInstanceAs (Decidable (_ ∧ _))

/-- `r` reports the response `m` truly to a caller whose buffer held `out`. -/
def Reports (m : Mailbox) (seq : BitVec 8) (out : List Byte) (r : ExecResult) : Prop :=
  (r.rc = none ↔ seqMatches m seq ∧ hdrError (readDword m 0) = 0) ∧
    (r.rc ≠ none → r.out = out ∧ r.outUsed = none)

/-- The mailbox a call posts. -/
def posted (sc : Softc) (cmd : BitVec 32) (inp : List Byte) : Mailbox :=
  sendLocked sc.mcdiBuf cmd inp sc.seq sc.mcdiNewEpoch

section
variable {mc : ℕ → Mailbox → Mailbox} {sc : Softc} {cmd : BitVec 32} {inp out : List Byte} {k : ℕ}

/-- The response of the first poll that sees one decides the result. -/
theorem exec_of_response (haccepts : execAccepts sc inp out = none) (hk : k < pollLimit)
    (hresp : pollResponse (mc k (posted sc cmd inp)) = true)
    (hearly : ∀ j < k, pollResponse (mc j (posted sc cmd inp)) = false) :
    (exec mc sc cmd inp out).2 =
      readResponse (mc k (posted sc cmd inp)) (payloadOff cmd inp.length) sc.seq out := by
  have hpoll : pollLoop (fun j => pollResponse (mc j (posted sc cmd inp))) pollLimit 0
      Backoff.first = some k :=
    pollLoop_eq (k := 0) hresp hearly (Nat.zero_le k) (by omega) (by omega)
  unfold posted at hpoll ⊢
  simp only [exec, haccepts, hpoll]

end

section
variable {m : Mailbox} {off : ℕ} {seq : BitVec 8} {out : List Byte}

theorem readResponse_badSeq (hseq : ¬ seqMatches m seq) :
    readResponse m off seq out = ⟨some .EPROTO, out, none⟩ := by
  unfold seqMatches at hseq
  rw [readResponse, if_pos hseq]

theorem readResponse_error (hseq : seqMatches m seq) (herr : hdrError (readDword m 0) ≠ 0) :
    readResponse m off seq out =
      ⟨xlateErr (if 4 ≤ respDatalen m off then readDword m off else 0), out, none⟩ := by
  unfold seqMatches at hseq
  rw [readResponse, if_neg (not_not.mpr hseq), if_pos herr]

theorem readResponse_ok (hseq : seqMatches m seq) (herr : hdrError (readDword m 0) = 0) :
    readResponse m off seq out =
      ⟨none, bufReadPayload m off (min (respDatalen m off) out.length) ++
        List.replicate (out.length - min (respDatalen m off) out.length) 0,
        some (min (respDatalen m off) out.length)⟩ := by
  unfold seqMatches at hseq
  rw [readResponse, if_neg (not_not.mpr hseq), if_neg (not_not.mpr herr)]
  rcases Nat.eq_zero_or_pos out.length with hout | hout
  · simp [List.length_eq_zero_iff.mp hout, bufReadPayload]
  · rw [if_pos hout]
    rcases Nat.lt_or_ge (respDatalen m off) out.length with hlt | hge
    · rw [if_pos hlt, Nat.min_eq_left hlt.le]
    · rw [if_neg (Nat.not_lt.mpr hge), Nat.min_eq_right hge]

theorem readResponse_rc (m : Mailbox) (off : ℕ) (seq : BitVec 8) (out : List Byte) :
    (readResponse m off seq out).rc = none ↔
      seqMatches m seq ∧ (hdrError (readDword m 0) = 0 ∨ uncodedError m off) := by
  by_cases hseq : seqMatches m seq
  · by_cases herr : hdrError (readDword m 0) = 0
    · simp [readResponse_ok hseq herr, hseq, herr]
    · rw [readResponse_error hseq herr, xlateErr_eq_none_iff]
      by_cases hlen : 4 ≤ respDatalen m off
      · rw [if_pos hlen, uncodedError]
        have hge := Nat.not_lt.mpr hlen
        tauto
      · rw [if_neg hlen, uncodedError]
        have hlt := Nat.lt_of_not_le hlen
        tauto
  · simp [readResponse_badSeq hseq, hseq]

theorem readResponse_untouched (h : (readResponse m off seq out).rc ≠ none) :
    (readResponse m off seq out).out = out ∧ (readResponse m off seq out).outUsed = none := by
  by_cases hseq : seqMatches m seq
  · by_cases herr : hdrError (readDword m 0) = 0
    · rw [readResponse_ok hseq herr] at h
      exact absurd rfl h
    · simp [readResponse_error hseq herr]
  · simp [readResponse_badSeq hseq]

end

/-- A response is reported as success exactly when it says so, and the caller's buffer is left
alone on every error, unless the response is an error without an error code. -/
theorem mcdi_error_reported_iff {mc : ℕ → Mailbox → Mailbox} {sc : Softc} {cmd : BitVec 32}
    {inp out : List Byte} {k : ℕ} (haccepts : execAccepts sc inp out = none) (hk : k < pollLimit)
    (hresp : pollResponse (mc k (posted sc cmd inp)) = true)
    (hearly : ∀ j < k, pollResponse (mc j (posted sc cmd inp)) = false) :
    Reports (mc k (posted sc cmd inp)) sc.seq out (exec mc sc cmd inp out).2 ↔
      ¬ (seqMatches (mc k (posted sc cmd inp)) sc.seq ∧
        uncodedError (mc k (posted sc cmd inp)) (payloadOff cmd inp.length)) := by
  rw [exec_of_response haccepts hk hresp hearly]
  generalize mc k (posted sc cmd inp) = m
  have hrc := readResponse_rc m (payloadOff cmd inp.length) sc.seq out
  constructor
  · rintro ⟨hiff, -⟩ ⟨hseq, huncoded⟩
    exact huncoded.1 (hiff.mp (hrc.mpr ⟨hseq, .inr huncoded⟩)).2
  · intro hcoded
    refine ⟨⟨fun hok => ?_, fun ⟨hseq, herr⟩ => hrc.mpr ⟨hseq, .inl herr⟩⟩,
      readResponse_untouched⟩
    obtain ⟨hseq, herr | huncoded⟩ := hrc.mp hok
    · exact ⟨hseq, herr⟩
    · exact absurd ⟨hseq, huncoded⟩ hcoded

/-- The transport before its first command. -/
def firstSoftc : Softc := ⟨true, 0, true, fun _ => 0⟩

/-- `MC_CMD_ERR_EINVAL` in the answer to `GET_VERSION`: the call fails and the buffer is as it
was. -/
theorem mcdi_error_reported_einval :
    let r := (exec (answerAt 0 (Response.frame false ⟨0x00c00408, 0, [22, 0, 0, 0]⟩)) firstSoftc
      0x08 [] [7, 7, 7, 7]).2
    r.rc = some .EINVAL ∧ r.out = [7, 7, 7, 7] ∧ r.outUsed = none := by
  intro r
  have hrc : r.rc = some .EINVAL := by decide +kernel
  have haccepts : execAccepts firstSoftc [] [7, 7, 7, 7] = none := by decide
  have hresp : pollResponse (answerAt 0 (Response.frame false ⟨0x00c00408, 0, [22, 0, 0, 0]⟩) 0
      (posted firstSoftc 0x08 [])) = true := by decide +kernel
  have hreport := (mcdi_error_reported_iff haccepts (by decide) hresp (by simp)).mpr
    (by decide +kernel)
  exact ⟨hrc, hreport.2 (by rw [hrc]; exact Option.some_ne_none _)⟩

/-- An error response that announces no payload: the driver logs that the command failed and
returns 0, and what it was to fetch stays unwritten. -/
theorem mcdi_error_unreported :
    ¬ ∀ (mc : ℕ → Mailbox → Mailbox) (sc : Softc) (cmd : BitVec 32) (inp out : List Byte) (k : ℕ),
      execAccepts sc inp out = none → k < pollLimit →
      pollResponse (mc k (posted sc cmd inp)) = true →
      (∀ j < k, pollResponse (mc j (posted sc cmd inp)) = false) →
      Reports (mc k (posted sc cmd inp)) sc.seq out (exec mc sc cmd inp out).2 := by
  intro h
  have hreports := h (answerAt 0 (Response.frame false ⟨0x00c00008, 0, []⟩))
    firstSoftc 0x08 [] [7, 7, 7, 7] 0 (by decide) (by decide) (by decide +kernel)
    (by simp)
  have hok : (exec (answerAt 0 (Response.frame false ⟨0x00c00008, 0, []⟩))
      firstSoftc 0x08 [] [7, 7, 7, 7]).2.rc = none := by decide +kernel
  exact absurd (hreports.1.mp hok).2 (by decide +kernel)

/-- Offsets of the dwords that `mcdi_buf_write_payload` stores and `mcdi_buf_read_payload` loads
for a payload of this length. -/
def payloadOffsets : ℕ → ℕ → List ℕ
  | _, 0 => []
  | off, len + 4 => off :: payloadOffsets (off + 4) len
  | off, _ => [off]

/-- Offsets loaded once the response is there. -/
def responseReads (m : Mailbox) (off : ℕ) (seq : BitVec 8) (outLen : ℕ) : List ℕ :=
  0 :: (if off = mcdiV2HeaderLen then [mcdiHeaderLen] else []) ++
    (if ¬ seqMatches m seq then []
      else if hdrError (readDword m 0) ≠ 0 then if 4 ≤ respDatalen m off then [off] else []
      else payloadOffsets off (min (respDatalen m off) outLen))

/-- What the timeout report prints. -/
def timeoutReads : List ℕ := [0, 4, 8, 12]

/-- The poll that ends the loop, if the MC answers in time. -/
def answeredPoll (mc : ℕ → Mailbox → Mailbox) (sc : Softc) (cmd : BitVec 32) (inp : List Byte) :
    Option ℕ :=
  pollLoop (fun k => pollResponse (mc k (posted sc cmd inp))) pollLimit 0 Backoff.first

/-- Payload bytes the accepted answer announces. -/
def answeredLen (mc : ℕ → Mailbox → Mailbox) (sc : Softc) (cmd : BitVec 32) (inp : List Byte) :
    ℕ :=
  match answeredPoll mc sc cmd inp with
  | none => 0
  | some k =>
      if seqMatches (mc k (posted sc cmd inp)) sc.seq ∧
          hdrError (readDword (mc k (posted sc cmd inp)) 0) = 0 then
        respDatalen (mc k (posted sc cmd inp)) (payloadOff cmd inp.length)
      else 0

/-- Offsets of all the mailbox dwords a call stores or loads: the request, the header at each
poll, then the response or the timeout report. -/
def execAccesses (mc : ℕ → Mailbox → Mailbox) (sc : Softc) (cmd : BitVec 32)
    (inp out : List Byte) : List ℕ :=
  match execAccepts sc inp out with
  | some _ => []
  | none =>
      (sendWrites cmd inp sc.seq sc.mcdiNewEpoch).map Prod.fst ++
        match answeredPoll mc sc cmd inp with
        | none => List.replicate pollLimit 0 ++ timeoutReads
        | some k => List.replicate (k + 1) 0 ++ responseReads (mc k (posted sc cmd inp))
            (payloadOff cmd inp.length) sc.seq out.length

theorem payloadOffsets_tail {off len : ℕ} (hpos : len ≠ 0) (hlt : len < 4) :
    payloadOffsets off len = [off] := by
  obtain rfl | rfl | rfl : len = 1 ∨ len = 2 ∨ len = 3 := by omega
  · rfl
  · rfl
  · rfl

theorem bufWritePayload_fst (off : ℕ) (bs : List Byte) :
    (bufWritePayload off bs).map Prod.fst = payloadOffsets off bs.length := by
  induction off, bs using bufWritePayload.induct with
  | case1 off => rfl
  | case2 off a b c d rest ih => simp [bufWritePayload, payloadOffsets, ih]
  | case3 off tail hne hshort =>
    have hlt : tail.length < 4 := by
      rcases tail with _ | ⟨a, _ | ⟨b, _ | ⟨c, _ | ⟨d, rest⟩⟩⟩⟩
      · simp
      · simp
      · simp
      · simp
      · exact absurd rfl (hshort a b c d rest)
    rw [bufWritePayload, payloadOffsets_tail (by simpa using hne) hlt]
    · rfl
    all_goals assumption

theorem bufReadPayload_congr {m m' : Mailbox} (off len : ℕ)
    (h : ∀ o ∈ payloadOffsets off len, readDword m o = readDword m' o) :
    bufReadPayload m off len = bufReadPayload m' off len := by
  induction off, len using bufReadPayload.induct with
  | case1 off => simp [bufReadPayload]
  | case2 off len ih =>
    simp only [payloadOffsets, List.mem_cons, forall_eq_or_imp] at h
    rw [bufReadPayload, bufReadPayload, h.1, ih h.2]
  | case3 off tail hne hshort =>
    have hlt : tail < 4 := by
      by_contra hge
      exact hshort (tail - 4) (by omega)
    rw [payloadOffsets_tail hne hlt] at h
    rw [bufReadPayload, bufReadPayload, h off (List.mem_singleton.mpr rfl)]
    all_goals assumption

theorem payloadOffsets_within (off len b : ℕ) : (∀ o ∈ payloadOffsets off len, o + 4 ≤ b) ↔
    len = 0 ∨ off + (len + 3) / 4 * 4 ≤ b := by
  induction len using Nat.strong_induction_on generalizing off with
  | h len ih =>
    rcases Nat.lt_or_ge len 4 with hlt | hge
    · rcases Nat.eq_zero_or_pos len with rfl | hpos
      · simp [payloadOffsets]
      · simp only [payloadOffsets_tail hpos.ne' hlt, List.mem_singleton, forall_eq, hpos.ne',
          false_or]
        omega
    · obtain ⟨k, rfl⟩ := Nat.exists_eq_add_of_le' hge
      simp only [payloadOffsets, List.mem_cons, forall_eq_or_imp, ih k (by omega)]
      omega

theorem sendWrites_fst (cmd : BitVec 32) (inp : List Byte) (seq : BitVec 8) (newEpoch : Bool) :
    (sendWrites cmd inp seq newEpoch).map Prod.fst =
      0 :: (if useV2 cmd inp.length then [mcdiHeaderLen] else []) ++
        payloadOffsets (payloadOff cmd inp.length) inp.length := by
  rw [sendWrites, List.map_append, List.map_cons, bufWritePayload_fst]
  cases useV2 cmd inp.length <;> rfl

section
variable {m m' : Mailbox} {off : ℕ} {seq : BitVec 8} {out : List Byte}

theorem responseReads_badSeq {outLen : ℕ} (hseq : ¬ seqMatches m seq) :
    responseReads m off seq outLen =
      0 :: if off = mcdiV2HeaderLen then [mcdiHeaderLen] else [] := by
  rw [responseReads, if_pos hseq, List.append_nil]

theorem responseReads_error {outLen : ℕ} (hseq : seqMatches m seq)
    (herr : hdrError (readDword m 0) ≠ 0) :
    responseReads m off seq outLen =
      0 :: (if off = mcdiV2HeaderLen then [mcdiHeaderLen] else []) ++
        if 4 ≤ respDatalen m off then [off] else [] := by
  rw [responseReads, if_neg (not_not.mpr hseq), if_pos herr]

theorem responseReads_ok {outLen : ℕ} (hseq : seqMatches m seq)
    (herr : hdrError (readDword m 0) = 0) :
    responseReads m off seq outLen =
      0 :: (if off = mcdiV2HeaderLen then [mcdiHeaderLen] else []) ++
        payloadOffsets off (min (respDatalen m off) outLen) := by
  rw [responseReads, if_neg (not_not.mpr hseq), if_neg (not_not.mpr herr)]

/-- The result depends on no dword of the mailbox but the ones loaded. -/
theorem readResponse_congr
    (h : ∀ o ∈ responseReads m off seq out.length, readDword m o = readDword m' o) :
    readResponse m off seq out = readResponse m' off seq out := by
  have hhdr : readDword m 0 = readDword m' 0 := h 0 (by simp [responseReads])
  have hlen : respDatalen m off = respDatalen m' off := by
    unfold respDatalen
    split_ifs with hv2
    · rw [h mcdiHeaderLen (by simp [responseReads, hv2])]
    · rw [hhdr]
  have hmatches : seqMatches m' seq ↔ seqMatches m seq := by rw [seqMatches, seqMatches, hhdr]
  by_cases hseq : seqMatches m seq
  · by_cases herr : hdrError (readDword m 0) = 0
    · rw [responseReads_ok hseq herr] at h
      rw [readResponse_ok hseq herr, readResponse_ok (hmatches.mpr hseq) (hhdr ▸ herr), ← hlen,
        bufReadPayload_congr _ _ fun o ho => h o (List.mem_append_right _ ho)]
    · rw [responseReads_error hseq herr] at h
      rw [readResponse_error hseq herr, readResponse_error (hmatches.mpr hseq) (hhdr ▸ herr),
        ← hlen]
      by_cases hcode : 4 ≤ respDatalen m off
      · rw [if_pos hcode, if_pos hcode, h off (by simp [hcode])]
      · rw [if_neg hcode, if_neg hcode]
  · rw [readResponse_badSeq hseq, readResponse_badSeq (hmatches.not.mpr hseq)]

end

/-- Every dword at these offsets lies wholly within the allocated mailbox. -/
def Within (os : List ℕ) : Prop := ∀ o ∈ os, o + 4 ≤ mailboxLen

instance (os : List ℕ) : Decidable (Within os) := inferInstanceAs (Decidable (∀ o ∈ os, _))

@[simp] theorem within_append (os ps : List ℕ) : Within (os ++ ps) ↔ Within os ∧ Within ps :=
  List.forall_mem_append

@[simp] theorem within_replicate_zero (n : ℕ) : Within (List.replicate n 0) := by
  intro o ho
  rw [List.eq_of_mem_replicate ho]
  decide

/-- A payload of this length at this offset ends within the mailbox, its last dword included. -/
def Fits (off len : ℕ) : Prop := len = 0 ∨ off + (len + 3) / 4 * 4 ≤ mailboxLen

instance (off len : ℕ) : Decidable (Fits off len) := inferInstanceAs (Decidable (_ ∨ _))

theorem within_payloadOffsets (off len : ℕ) : Within (payloadOffsets off len) ↔ Fits off len :=
  payloadOffsets_within off len mailboxLen

section
variable {cmd : BitVec 32} {inp : List Byte}

theorem within_sendWrites (seq : BitVec 8) (newEpoch : Bool) :
    Within ((sendWrites cmd inp seq newEpoch).map Prod.fst) ↔
      Fits (payloadOff cmd inp.length) inp.length := by
  have hhdr : Within (0 :: if useV2 cmd inp.length then [mcdiHeaderLen] else []) := by
    split <;> decide
  rw [sendWrites_fst, within_append, within_payloadOffsets, and_iff_right hhdr]

theorem within_responseReads (m : Mailbox) (seq : BitVec 8) (outLen : ℕ) :
    Within (responseReads m (payloadOff cmd inp.length) seq outLen) ↔
      Fits (payloadOff cmd inp.length)
        (min (if seqMatches m seq ∧ hdrError (readDword m 0) = 0 then
          respDatalen m (payloadOff cmd inp.length) else 0) outLen) := by
  have hhdr : Within (0 :: if payloadOff cmd inp.length = mcdiV2HeaderLen then [mcdiHeaderLen]
      else []) := by
    split <;> decide
  have herror : Within (if 4 ≤ respDatalen m (payloadOff cmd inp.length) then
      [payloadOff cmd inp.length] else []) := by
    unfold payloadOff
    split_ifs <;> decide
  by_cases hseq : seqMatches m seq
  · by_cases herr : hdrError (readDword m 0) = 0
    · rw [responseReads_ok hseq herr, within_append, within_payloadOffsets, and_iff_right hhdr,
        if_pos ⟨hseq, herr⟩]
    · rw [responseReads_error hseq herr, within_append]
      refine iff_of_true ⟨hhdr, herror⟩ (.inl ?_)
      rw [if_neg (fun h => herr h.2), Nat.zero_min]
  · rw [responseReads_badSeq hseq]
    refine iff_of_true hhdr (.inl ?_)
    rw [if_neg (fun h => hseq h.1), Nat.zero_min]

end

theorem within_execAccesses {mc : ℕ → Mailbox → Mailbox} {sc : Softc} {cmd : BitVec 32}
    {inp out : List Byte} (haccepts : execAccepts sc inp out = none) :
    Within (execAccesses mc sc cmd inp out) ↔
      Fits (payloadOff cmd inp.length) inp.length ∧
        Fits (payloadOff cmd inp.length) (min (answeredLen mc sc cmd inp) out.length) := by
  unfold execAccesses answeredLen
  rw [haccepts]
  cases answeredPoll mc sc cmd inp with
  | none =>
    have htimeout : Within timeoutReads := by decide
    simp [within_sendWrites, htimeout, Fits]
  | some k =>
    simp only [within_append, within_sendWrites, within_replicate_zero, within_responseReads,
      true_and]

/-- A call's accesses stay inside the mailbox exactly when it is framed as v1, or neither the
request nor what is copied of the answer reaches past the end of the longer header. -/
theorem mcdi_accesses_within_iff {mc : ℕ → Mailbox → Mailbox} {sc : Softc} {cmd : BitVec 32}
    {inp out : List Byte} (haccepts : execAccepts sc inp out = none) :
    Within (execAccesses mc sc cmd inp out) ↔
      cmd < mcCmdV2Extn ∨
        inp.length ≤ mailboxLen - mcdiV2HeaderLen ∧
          min (answeredLen mc sc cmd inp) out.length ≤ mailboxLen - mcdiV2HeaderLen := by
  have hlen : inp.length ≤ mcdiPayloadLenMaxV1 ∧ out.length ≤ mcdiPayloadLenMaxV1 := by
    unfold execAccepts at haccepts
    split_ifs at haccepts
    omega
  have hv2 : useV2 cmd inp.length = true ↔ ¬ cmd < mcCmdV2Extn := by
    simp [useV2, Nat.not_lt.mpr hlen.1]
  rw [within_execAccesses haccepts]
  unfold Fits payloadOff
  by_cases hcmd : cmd < mcCmdV2Extn
  · rw [if_neg (by rw [hv2]; exact not_not.mpr hcmd)]
    simp only [mcdiHeaderLen, mailboxLen, mcdiPayloadLenMaxV1] at hlen ⊢
    refine iff_of_true ⟨?_, ?_⟩ (.inl hcmd) <;> omega
  · rw [if_pos (hv2.mpr hcmd), or_iff_right hcmd]
    simp only [mcdiHeaderLen, mcdiV2HeaderLen, mailboxLen, mcdiPayloadLenMaxV1] at hlen ⊢
    omega

/-- `VADAPTOR_ALLOC` with its 30 bytes and no output. -/
theorem mcdi_accesses_within_vadaptor :
    Within (execAccesses (answerAt 3 (Response.frame true ⟨0x0080007f, 0x00000098, []⟩))
      firstSoftc 0x98 (List.replicate 30 7) []) :=
  (mcdi_accesses_within_iff (by decide)).mpr (.inr ⟨by decide, by simp⟩)

/-- An `INIT_EVQ` request of 252 bytes, the most `exec` accepts: its last dword is stored behind
the mailbox. -/
theorem mcdi_accesses_outside :
    ¬ ∀ (mc : ℕ → Mailbox → Mailbox) (sc : Softc) (cmd : BitVec 32) (inp out : List Byte),
      execAccepts sc inp out = none → Within (execAccesses mc sc cmd inp out) := by
  intro h
  have haccepts : execAccepts firstSoftc (List.replicate 252 0) [] = none := by decide +kernel
  have hwithin := h (fun _ m => m) firstSoftc 0x80 (List.replicate 252 0) [] haccepts
  obtain ⟨hfits, -⟩ := (within_execAccesses haccepts).mp hwithin
  rw [List.length_replicate] at hfits
  exact absurd hfits (by decide)

end Sfc7120.Mcdi

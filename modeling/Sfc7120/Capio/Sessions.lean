import Sfc7120.Capio.System

/-! Sessions and the requests they authorise. First what a step can do to the token, to the
requests that passed their check, and to the effects; from that, when an old token is accepted
again, and when a request acts on the session that authorised it. -/
namespace Sfc7120.Capio

open Sealing Machine

section
variable {Cap : Type*}

/-- The session a request was checked against, while it has not acted. -/
def Pc.session : Pc Cap → Option ℕ
  | .goodbyeChecked k _ => some k
  | .ioctlChecked k => some k
  | .mmapChecked k _ _ => some k
  | .mmapValidated k _ _ => some k
  | .mmapScanned k _ _ => some k
  | _ => none

/-- The token state as far as sessions depend on it. -/
structure SameToken (s t : Sys Cap) : Prop where
  originalCap : t.sc.originalCap = s.sc.originalCap
  sealedCap : t.sc.sealedCap = s.sc.sealedCap
  session : t.session = s.session
  granted : t.granted = s.granted

/-- The token state is that of the open session, and null when there is none. -/
structure TokenInv (C : Ops Cap) (s : Sys Cap) : Prop where
  closed : s.session = none → C.isNull s.sc.sealedCap = true
  opened : ∀ k, s.session = some k → C.isNull s.sc.sealedCap = false ∧
    k + 1 = s.granted.length ∧ ∃ token, s.granted[k]? = some (s.sc.originalCap, token)
  granted : ∀ u token, (u, token) ∈ s.granted → token = C.sealCap u ∧ C.isNull u = false

theorem tokenInv_start {C : Ops Cap} (hC : Lawful C) (regs : List Region) :
    TokenInv C (start C regs) where
  closed _ := hC.isNull_null
  opened k hk := by cases hk
  granted u token hu := by cases hu

end

section
variable {Cap : Type*} [DecidableEq Cap] {C : Ops Cap} {getBufferSize : ℤ → ℕ} {s t : Sys Cap}

/-- What one step can do to the token: nothing, open a session, or clear it. -/
theorem step_token {a : Act Cap} (h : step C getBufferSize s a = some t) :
    SameToken s t ∨
    (∃ u, a = .attach u ∧ C.isNull u = false ∧ C.isNull s.sc.sealedCap = true ∧
      t.sc.originalCap = u ∧ t.sc.sealedCap = C.sealCap u ∧
      t.granted = s.granted ++ [(u, C.sealCap u)] ∧ t.session = some s.granted.length) ∨
    (((∃ r, a = .goodbyeClear r) ∨ ∃ proc, a = .close proc) ∧
      t.sc.originalCap = C.null ∧ t.sc.sealedCap = C.null ∧ t.session = none ∧
      t.granted = s.granted) := by
  cases step_moves h with
  | attach hnull hclosed => exact .inr (.inl ⟨_, rfl, hnull, hclosed, rfl, rfl, rfl, rfl⟩)
  | goodbyeClear hr => exact .inr (.inr ⟨.inl ⟨_, rfl⟩, rfl, rfl, rfl, rfl⟩)
  | close hcdev => exact .inr (.inr ⟨.inr ⟨_, rfl⟩, rfl, rfl, rfl, rfl⟩)
  | @revokeRemove r proc i offset len hr =>
    have hframe := foldl_destroyObj (s.mappedIn proc offset len) s
    exact .inl ⟨hframe.originalCap, hframe.sealedCap, hframe.session, hframe.granted⟩
  | _ => exact .inl ⟨rfl, rfl, rfl, rfl⟩

end

section
variable {Cap : Type*} [DecidableEq Cap] {C : Ops Cap} {getBufferSize : ℤ → ℕ} {s t : Sys Cap}

theorem TokenInv.step (hC : Lawful C) {a : Act Cap} (h : TokenInv C s)
    (hstep : step C getBufferSize s a = some t) : TokenInv C t := by
  rcases step_token hstep with hsame | ⟨u, -, hu, -, horig, hsealed, hgranted, hsession⟩ |
    ⟨-, -, hsealed, hsession, hgranted⟩
  · refine ⟨?_, ?_, hsame.granted ▸ h.granted⟩
    · rw [hsame.session, hsame.sealedCap]
      exact h.closed
    · intro k hk
      rw [hsame.session] at hk
      rw [hsame.sealedCap, hsame.originalCap, hsame.granted]
      exact h.opened k hk
  · refine ⟨fun hnone => ?_, fun k hk => ?_, fun v token hv => ?_⟩
    · rw [hsession] at hnone
      cases hnone
    · obtain rfl : s.granted.length = k := by simpa [hsession] using hk
      rw [hsealed, hC.isNull_sealCap, hgranted, horig]
      exact ⟨hu, by simp, C.sealCap u, by simp⟩
    · rw [hgranted] at hv
      rcases List.mem_append.mp hv with hv | hv
      · exact h.granted v token hv
      · obtain ⟨rfl, rfl⟩ : v = u ∧ token = C.sealCap u := by simpa using hv
        exact ⟨rfl, hu⟩
  · refine ⟨fun _ => ?_, fun k hk => ?_, hgranted ▸ h.granted⟩
    · rw [hsealed]
      exact hC.isNull_null
    · rw [hsession] at hk
      cases hk

/-- The user capability of this attach is a valid one. -/
def Act.tagged (C : Ops Cap) : Act Cap → Bool
  | .attach u => C.tag u
  | _ => true

theorem granted_tagged_step {a : Act Cap} (h : ∀ u token, (u, token) ∈ s.granted → C.tag u = true)
    (ha : a.tagged C = true) (hstep : step C getBufferSize s a = some t) :
    ∀ u token, (u, token) ∈ t.granted → C.tag u = true := by
  intro v token hv
  rcases step_token hstep with hsame | ⟨u, rfl, -, -, -, -, hgranted, -⟩ | ⟨-, -, -, -, hgranted⟩
  · exact h v token (hsame.granted ▸ hv)
  · rw [hgranted] at hv
    rcases List.mem_append.mp hv with hv | hv
    · exact h v token hv
    · obtain ⟨rfl, -⟩ : v = u ∧ _ := by simpa using hv
      exact ha
  · exact h v token (hgranted ▸ hv)

/-- A token is accepted exactly while a session is open whose user capability is bit for bit the
one it was sealed from, and that is an unsealed one. -/
theorem TokenInv.accepts_iff (hC : Lawful C) (h : TokenInv C s)
    (htag : ∀ u token, (u, token) ∈ s.granted → C.tag u = true) {k : ℕ} {u token : Cap}
    (hk : s.granted[k]? = some (u, token)) :
    checkCapToken C s.sc token = none ↔
      ∃ j token', s.session = some j ∧ s.granted[j]? = some (u, token') ∧ C.isSealed u = false := by
  have hmem := List.mem_of_getElem? hk
  obtain ⟨rfl, hnull⟩ := h.granted u token hmem
  cases hsession : s.session with
  | none => simp [checkCapToken, h.closed hsession]
  | some j =>
    obtain ⟨hopen, -, token', hj⟩ := h.opened j hsession
    have hiff := hC.unsealCap_sealCap_eq_iff (htag u _ hmem)
      (htag s.sc.originalCap token' (List.mem_of_getElem? hj))
    have hcheck : checkCapToken C s.sc (C.sealCap u) = none ↔
        C.unsealCap (C.sealCap u) = s.sc.originalCap := by
      simp [checkCapToken, hopen, hC.isNull_sealCap, hnull]
    rw [hcheck, hiff]
    constructor
    · rintro ⟨rfl, hus⟩
      exact ⟨j, token', rfl, hj, hus⟩
    · rintro ⟨i, token'', hi, hget, hus⟩
      obtain rfl : j = i := Option.some.inj hi
      rw [hj] at hget
      obtain ⟨heq, -⟩ : s.sc.originalCap = u ∧ token' = token'' := by simpa using hget
      exact ⟨heq.symm, hus⟩

theorem tokens_run (hC : Lawful C) {regs : List Region} {acts : List (Act Cap)}
    (htagged : ∀ a ∈ acts, a.tagged C = true)
    (hrun : run (step C getBufferSize) (start C regs) acts = some s) :
    TokenInv C s ∧ ∀ u token, (u, token) ∈ s.granted → C.tag u = true := by
  refine run_invariant_along (P := fun _ a => a.tagged C = true ∧ True)
    (I := fun s => TokenInv C s ∧ ∀ u token, (u, token) ∈ s.granted → C.tag u = true)
    (fun _ _ _ h ha hstep => ⟨h.1.step hC hstep, granted_tagged_step h.2 ha.1 hstep⟩)
    ⟨tokenInv_start hC regs, fun u token hu => (by cases hu)⟩
    ((along_true _ _ _).and_mem htagged) hrun

end

/-- After its session was revoked, a token is accepted exactly at the moments at which a later
session is open whose user capability is bit-identical to the one the token was made from (and
unsealed, since sealing a sealed capability gives no valid token). -/
theorem revoked_token_accepted_iff {Cap : Type*} [DecidableEq Cap] {C : Ops Cap} (hC : Lawful C)
    {getBufferSize : ℤ → ℕ} {regs : List Region} {acts : List (Act Cap)} {s : Sys Cap}
    (htagged : ∀ a ∈ acts, a.tagged C = true)
    (hrun : run (step C getBufferSize) (start C regs) acts = some s) {k : ℕ} {u token : Cap}
    (hk : s.granted[k]? = some (u, token)) (hrevoked : s.session ≠ some k) :
    checkCapToken C s.sc token = none ↔
      ∃ j token', k < j ∧ s.session = some j ∧ s.granted[j]? = some (u, token') ∧
        C.isSealed u = false := by
  obtain ⟨hinv, htag⟩ := tokens_run hC htagged hrun
  rw [hinv.accepts_iff hC htag hk]
  constructor
  · rintro ⟨j, token', hj, hrest⟩
    obtain ⟨-, hlast, -⟩ := hinv.opened j hj
    have hlt := (List.getElem?_eq_some_iff.mp hk).1
    have hne : j ≠ k := by
      rintro rfl
      exact hrevoked hj
    exact ⟨j, token', by omega, hj, hrest⟩
  · rintro ⟨j, token', -, hrest⟩
    exact ⟨j, token', hrest⟩

/-- An unsealed user capability at some address. -/
def userCapAt (addr : ℕ) : MorelloCap := ⟨true, 0, addr⟩

def tokenAt (addr : ℕ) : MorelloCap := (morello 0x1234).sealCap (userCapAt addr)

/-- One session ended by GOODBYE, and a second client that presents the same capability. -/
def sameCapTwice : List (Act MorelloCap) :=
  [.attach (userCapAt 0x1000), .goodbye 1 (tokenAt 0x1000), .goodbyeClear 0,
   .attach (userCapAt 0x1000)]

theorem revoked_token_accepted_again : ¬ ∀ (getBufferSize : ℤ → ℕ) (regs : List Region)
    (acts : List (Act MorelloCap)) (s : Sys MorelloCap),
      (∀ a ∈ acts, a.tagged (morello 0x1234) = true) →
      run (step (morello 0x1234) getBufferSize) (start (morello 0x1234) regs) acts = some s →
      ∀ k u token, s.granted[k]? = some (u, token) → s.session ≠ some k →
        checkCapToken (morello 0x1234) s.sc token ≠ none := by
  intro hall
  have hend : (run (step (morello 0x1234) fun _ => 0) (start (morello 0x1234) [])
      sameCapTwice).map (fun s => (s.granted[0]?, s.session,
        checkCapToken (morello 0x1234) s.sc (tokenAt 0x1000))) =
      some (some (userCapAt 0x1000, tokenAt 0x1000), some 1, none) := by decide +kernel
  obtain ⟨s, hs, hd⟩ := Option.map_eq_some_iff.mp hend
  simp only [Prod.mk.injEq] at hd
  obtain ⟨hget, hsession, hcheck⟩ := hd
  exact hall _ _ sameCapTwice s (by decide) hs 0 _ _ hget (by simp [hsession]) hcheck

/-- The same token against a second client with another capability. -/
theorem revoked_token_accepted_iff_other_cap :
    ∃ s, run (step (morello 0x1234) fun _ => 0) (start (morello 0x1234) [])
        [.attach (userCapAt 0x1000), .goodbye 1 (tokenAt 0x1000), .goodbyeClear 0,
         .attach (userCapAt 0x2000)] = some s ∧ s.session = some 1 ∧
      (checkCapToken (morello 0x1234) s.sc (tokenAt 0x1000) = none ↔
        ∃ j token', 0 < j ∧ s.session = some j ∧ s.granted[j]? = some (userCapAt 0x1000, token') ∧
          (morello 0x1234).isSealed (userCapAt 0x1000) = false) := by
  have hend : (run (step (morello 0x1234) fun _ => 0) (start (morello 0x1234) [])
      [.attach (userCapAt 0x1000), .goodbye 1 (tokenAt 0x1000), .goodbyeClear 0,
       .attach (userCapAt 0x2000)]).map (fun s => (s.granted[0]?, s.session)) =
      some (some (userCapAt 0x1000, tokenAt 0x1000), some 1) := by decide +kernel
  obtain ⟨s, hs, hd⟩ := Option.map_eq_some_iff.mp hend
  simp only [Prod.mk.injEq] at hd
  obtain ⟨hget, hsession⟩ := hd
  exact ⟨s, hs, hsession, revoked_token_accepted_iff (morello_lawful 0x1234) (by decide) hs hget
    (by simp [hsession])⟩

section
variable {Cap : Type*} {s t : Sys Cap}

/-- What a step can do to the requests that passed their check and to the effects: a pending
request was pending before or was let through in the current session, and a new effect is that of
a pending request in the current session. -/
structure Pending (s t : Sys Cap) : Prop where
  reqs : ∀ p ∈ t.reqs, ∀ k, p.session = some k →
    s.session = some k ∨ ∃ q ∈ s.reqs, q.session = some k
  effects : ∀ e ∈ t.effects, e ∈ s.effects ∨
    (e.current = s.session ∧ ∃ q ∈ s.reqs, q.session = some e.checked)

theorem Pending.same (hreqs : t.reqs = s.reqs) (heffects : t.effects = s.effects) :
    Pending s t where
  reqs p hp _ hk := .inr ⟨p, hreqs ▸ hp, hk⟩
  effects _ he := .inl (heffects ▸ he)

theorem Pending.add {p : Pc Cap} (hp : p.session = none ∨ p.session = s.session)
    (hreqs : t.reqs = s.reqs ++ [p]) (heffects : t.effects = s.effects) : Pending s t where
  reqs q hq k hk := by
    rw [hreqs] at hq
    rcases List.mem_append.mp hq with hq | hq
    · exact .inr ⟨q, hq, hk⟩
    · obtain rfl := List.mem_singleton.mp hq
      rcases hp with hp | hp
      · rw [hp] at hk
        cases hk
      · exact .inl (hp ▸ hk)
  effects e he := .inl (heffects ▸ he)

/-- A request moves on: it stays pending in its session or stops being pending. -/
theorem Pending.set {r : ℕ} {q p : Pc Cap} (hq : s.reqs[r]? = some q)
    (hp : p.session = none ∨ p.session = q.session) (hreqs : t.reqs = s.reqs.set r p)
    (heffects : ∀ e ∈ t.effects, e ∈ s.effects ∨
      (e.current = s.session ∧ q.session = some e.checked)) : Pending s t where
  reqs x hx k hk := by
    rw [hreqs] at hx
    rcases List.mem_or_eq_of_mem_set hx with hx | rfl
    · exact .inr ⟨x, hx, hk⟩
    · rcases hp with hp | hp
      · rw [hp] at hk
        cases hk
      · exact .inr ⟨q, List.mem_of_getElem? hq, hp ▸ hk⟩
  effects e he := by
    rcases heffects e he with he | ⟨hcur, hchecked⟩
    · exact .inl he
    · exact .inr ⟨hcur, q, List.mem_of_getElem? hq, hchecked⟩

theorem mem_act {kind : EffectKind} {k : ℕ} {e : Effect} (he : e ∈ (s.act kind k).effects) :
    e ∈ s.effects ∨ (e.current = s.session ∧ some k = some e.checked) := by
  rcases List.mem_append.mp he with he | he
  · exact .inl he
  · obtain rfl := List.mem_singleton.mp he
    exact .inr ⟨rfl, rfl⟩

end

section
variable {Cap : Type*} [DecidableEq Cap] {C : Ops Cap} {getBufferSize : ℤ → ℕ} {s t : Sys Cap}

theorem step_pending {a : Act Cap} (h : step C getBufferSize s a = some t) : Pending s t := by
  cases step_moves h with
  | @goodbye proc k tok hcheck hsession =>
    exact .add (p := .goodbyeChecked k proc) (.inr hsession.symm) rfl rfl
  | @ioctl k tok hcheck hsession => exact .add (p := .ioctlChecked k) (.inr hsession.symm) rfl rfl
  | @mmap proc k req hcheck hsession =>
    exact .add (p := .mmapChecked k proc req) (.inr hsession.symm) rfl rfl
  | close hcdev => exact .add (.inl rfl) rfl rfl
  | goodbyeClear hr => exact .set hr (.inl rfl) rfl fun e he => mem_act he
  | ioctlRun hr => exact .set hr (.inl rfl) rfl fun e he => mem_act he
  | mmapAlloc hr => exact .set hr (.inl rfl) rfl fun e he => mem_act he
  -- the checks keep the session the request was let through in
  | @mmapValidate r k proc req hr hvalid =>
    exact .set (p := .mmapValidated k proc req) hr (.inr rfl) rfl fun e he => .inl he
  | @mmapScan r k proc req hr hscan =>
    exact .set (p := .mmapScanned k proc req) hr (.inr rfl) rfl fun e he => .inl he
  | mmapInvalid hr hvalid => exact .set hr (.inl rfl) rfl fun e he => .inl he
  | mmapBusy hr hscan => exact .set hr (.inl rfl) rfl fun e he => .inl he
  | allocFailed hr => exact .set hr (.inl rfl) rfl fun e he => .inl he
  | lateDying hr hdying => exact .set hr (.inl rfl) rfl fun e he => .inl he
  | mmapLate hr hdying => exact .set hr (.inl rfl) rfl fun e he => .inl he
  | revokeDone hr hend => exact .set hr (.inl rfl) rfl fun e he => .inl he
  | revokeRead hr hsmem hoffset => exact .set hr (.inl rfl) rfl fun e he => .inl he
  | revokeSkip hr hsmem hoffset => exact .set hr (.inl rfl) rfl fun e he => .inl he
  | removeFailed hr => exact .set hr (.inl rfl) rfl fun e he => .inl he
  | @revokeRemove r proc i offset len hr =>
    have hframe := foldl_destroyObj (s.mappedIn proc offset len) s
    exact .set hr (.inl rfl) (by rw [Sys.setReq, hframe.reqs]) fun e he =>
      .inl (hframe.effects ▸ he)
  | revokeClear hr => exact .set hr (.inl rfl) rfl fun e he => .inl he
  | refused | attach | mapInsert | munmap | detachDying | destroyDev | freeDma | capioDestroy =>
    exact .same rfl rfl

/-- The session request `r` is pending in. -/
def Sys.pendingAt (s : Sys Cap) (r : ℕ) : Option ℕ := s.reqs[r]?.bind Pc.session

/-- A step that clears the token does so while no other request is between its check and its
action. -/
def ClearsAlone (s : Sys Cap) : Act Cap → Prop
  | .goodbyeClear r => ∀ j < s.reqs.length, j ≠ r → s.pendingAt j = none
  | .close _ => ∀ j < s.reqs.length, s.pendingAt j = none
  | _ => True

instance ClearsAlone.decidable (s : Sys Cap) : (a : Act Cap) → Decidable (ClearsAlone s a)
  | .goodbyeClear r =>
      inferInstanceAs (Decidable (∀ j < s.reqs.length, j ≠ r → s.pendingAt j = none))
  | .close _ => inferInstanceAs (Decidable (∀ j < s.reqs.length, s.pendingAt j = none))
  | .attach .. | .goodbye .. | .revokeRead .. | .revokeRemove .. | .revokeClear .. | .ioctl ..
  | .ioctlRun .. | .mmap .. | .mmapValidate .. | .mmapScan .. | .mmapAlloc .. | .mmapLate ..
  | .mapInsert .. | .munmap .. | .detachDying | .destroyDev | .freeDma | .capioDestroy =>
      inferInstanceAs (Decidable True)

/-- Every authorised request acted in the session that authorised it. -/
def OwnSession (s : Sys Cap) : Prop := ∀ e ∈ s.effects, e.current = some e.checked

structure AuthInv (C : Ops Cap) (s : Sys Cap) : Prop where
  token : TokenInv C s
  pending : ∀ p ∈ s.reqs, ∀ k, p.session = some k → s.session = some k
  own : OwnSession s

/-- After a clear that meets the condition nothing is pending. -/
theorem cleared_none_pending {a : Act Cap} (h : step C getBufferSize s a = some t)
    (halone : ClearsAlone s a) (ha : (∃ r, a = .goodbyeClear r) ∨ ∃ proc, a = .close proc) :
    ∀ p ∈ t.reqs, p.session = none := by
  intro p hp
  obtain ⟨j, hj⟩ := List.mem_iff_getElem?.mp hp
  rcases ha with ⟨r, rfl⟩ | ⟨proc, rfl⟩
  · cases step_moves h with
    | refused hasks => cases hasks
    | goodbyeClear hr =>
      simp only [Sys.setReq, Sys.clear, Sys.act] at hj
      by_cases hjr : j = r
      · rw [hjr, List.getElem?_set_self (List.getElem?_eq_some_iff.mp hr).1] at hj
        rw [← Option.some.inj hj]
        rfl
      · rw [List.getElem?_set_ne (Ne.symm hjr)] at hj
        have hnone := halone j (List.getElem?_eq_some_iff.mp hj).1 hjr
        simpa [Sys.pendingAt, hj] using hnone
  · cases step_moves h with
    | refused hasks => cases hasks
    | close hcdev =>
      simp only [Sys.addReq, Sys.clear] at hj
      rcases Nat.lt_or_ge j s.reqs.length with hlt | hge
      · rw [List.getElem?_append_left hlt] at hj
        have hnone := halone j hlt
        simpa [Sys.pendingAt, hj] using hnone
      · rw [List.getElem?_append_right hge] at hj
        obtain ⟨_, hlast⟩ := List.getElem?_eq_some_iff.mp hj
        rw [← hlast, List.getElem_singleton]
        rfl

theorem AuthInv.step (hC : Lawful C) {a : Act Cap} (h : AuthInv C s) (halone : ClearsAlone s a)
    (hstep : step C getBufferSize s a = some t) : AuthInv C t := by
  have hpend := step_pending hstep
  have hcame : ∀ p ∈ t.reqs, ∀ k, p.session = some k → s.session = some k := by
    intro p hp k hk
    rcases hpend.reqs p hp k hk with hk | ⟨q, hq, hqk⟩
    · exact hk
    · exact h.pending q hq k hqk
  refine ⟨h.token.step hC hstep, ?_, ?_⟩
  · rcases step_token hstep with hsame | ⟨u, -, -, hopen, -⟩ | ⟨hclear, -⟩
    · rw [hsame.session]
      exact hcame
    · -- a session can only be opened when none is, and then nothing was pending
      intro p hp k hk
      have hs := hcame p hp k hk
      rw [(h.token.opened k hs).1] at hopen
      cases hopen
    · intro p hp k hk
      rw [cleared_none_pending hstep halone hclear p hp] at hk
      cases hk
  · intro e he
    rcases hpend.effects e he with he | ⟨hcur, q, hq, hchecked⟩
    · exact h.own e he
    · rw [hcur]
      exact h.pending q hq _ hchecked

end

/-- In every interleaving in which no session is cleared while another request is between its
check and its action, every authorised request acts on the session that authorised it. -/
theorem authorised_request_own_session {Cap : Type*} [DecidableEq Cap] {C : Ops Cap}
    (hC : Lawful C) {getBufferSize : ℤ → ℕ} {regs : List Region} {acts : List (Act Cap)}
    {s : Sys Cap} (halone : Along (step C getBufferSize) ClearsAlone (start C regs) acts)
    (hrun : run (step C getBufferSize) (start C regs) acts = some s) : OwnSession s :=
  (run_invariant_along (fun _ _ _ h ha hstep => h.step hC ha hstep)
    (⟨tokenInv_start hC regs, fun p hp => (by cases hp), fun e he => (by cases he)⟩ :
      AuthInv C (start C regs)) halone hrun).own

/-- Two GOODBYEs of one session pass their check; the second runs when another client's session
is open. -/
def staleGoodbye : List (Act MorelloCap) :=
  [.attach (userCapAt 0x1000), .goodbye 1 (tokenAt 0x1000), .goodbye 1 (tokenAt 0x1000),
   .goodbyeClear 0, .attach (userCapAt 0x2000), .goodbyeClear 1]

theorem stale_goodbye_other_session : ¬ ∀ (getBufferSize : ℤ → ℕ) (regs : List Region)
    (acts : List (Act MorelloCap)) (s : Sys MorelloCap),
      run (step (morello 0x1234) getBufferSize) (start (morello 0x1234) regs) acts = some s →
      OwnSession s := by
  intro hall
  have hend : (run (step (morello 0x1234) fun _ => 0) (start (morello 0x1234) [])
      staleGoodbye).map Sys.effects =
      some [⟨.goodbye, 0, some 0⟩, ⟨.goodbye, 0, some 1⟩] := by decide +kernel
  obtain ⟨s, hs, heffects⟩ := Option.map_eq_some_iff.mp hend
  have hown := hall _ _ staleGoodbye s hs ⟨.goodbye, 0, some 1⟩ (by simp [heffects])
  exact absurd hown (by decide)

/-- An ioctl, then a GOODBYE with nothing else pending. -/
theorem authorised_request_own_session_in_turn :
    ∃ s, run (step (morello 0x1234) fun _ => 0) (start (morello 0x1234) [])
        [.attach (userCapAt 0x1000), .ioctl (tokenAt 0x1000), .ioctlRun 0,
         .goodbye 1 (tokenAt 0x1000), .goodbyeClear 1] = some s ∧
      s.effects = [⟨.ioctl, 0, some 0⟩, ⟨.goodbye, 0, some 0⟩] ∧ OwnSession s := by
  have hend : (run (step (morello 0x1234) fun _ => 0) (start (morello 0x1234) [])
      [.attach (userCapAt 0x1000), .ioctl (tokenAt 0x1000), .ioctlRun 0,
       .goodbye 1 (tokenAt 0x1000), .goodbyeClear 1]).map Sys.effects =
      some [⟨.ioctl, 0, some 0⟩, ⟨.goodbye, 0, some 0⟩] := by decide +kernel
  obtain ⟨s, hs, heffects⟩ := Option.map_eq_some_iff.mp hend
  exact ⟨s, hs, heffects,
    authorised_request_own_session (morello_lawful 0x1234) (by decide +kernel) hs⟩

end Sfc7120.Capio

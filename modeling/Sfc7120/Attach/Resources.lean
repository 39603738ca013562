import Sfc7120.Attach.Custody

/-! The host's resources through attach and detach. Each cleanup ladder gives back what was taken
above it, and the outer ladders call the helpers again only on what the fields still record. -/
namespace Sfc7120.Attach

open ByteMemory Mcdi Ladder Machine Custody

/-- `H` is held, `D` was given back, and the fields say that `A` is held. -/
structure Rig (H D A : Finset Resource) (st : St) : Prop where
  owns : Owns H D st
  agree : Agree A st.sc.host

/-- After a failure, whatever was given back on the way. -/
def Undone (H A : Finset Resource) (st : St) : Prop := ∃ D, Rig H D A st

/-- What one DMA buffer takes. -/
def dmaOf (b : DmaBuf) : Finset Resource := {.dmaMap b, .dmaMem b, .dmaTag b}

/-- What can touch a DMA buffer's memory besides the code that frees it. -/
def Unwatched (H : Finset Resource) : Prop := .intrHandler ∉ H ∧ .cdev ∉ H

instance (H : Finset Resource) : Decidable (Unwatched H) :=
  inferInstanceAs (Decidable (.intrHandler ∉ H ∧ .cdev ∉ H))

section
variable {env : Env} {H D A : Finset Resource} {st st' : St} {b : DmaBuf}

theorem Rig.cast {H' D' A' : Finset Resource} (h : Rig H D A st) (hH : H = H') (hD : D = D')
    (hA : A = A') : Rig H' D' A' st := by
  rw [← hH, ← hD, ← hA]
  exact h

theorem Rig.silent (h : Rig H D A st) (hmail : ∀ r ∈ mailbox, r ∈ H) (hs : Silent st st') :
    Rig H D A st' :=
  ⟨h.owns.silent hmail hs, (show st'.sc.host = st.sc.host from hs.view) ▸ h.agree⟩

theorem Rig.use {r : Resource} (h : Rig H D A st) (hr : r ∈ H) : Rig H D A (st.use r) :=
  ⟨h.owns.use hr, h.agree⟩

/-- A resource is taken and recorded. -/
theorem Rig.take {r : Resource} {u : Softc → Softc} (h : Rig H ∅ A st) (hfree : r ∉ H)
    (hneeds : ∀ x ∈ r.needs, x ∈ H) (hr : (u st.sc).host.knows r)
    (hframe : ∀ x, x ≠ r → ((u st.sc).host.knows x ↔ st.sc.host.knows x)) :
    Rig (insert r H) ∅ (insert r A) ((st.acquire r).update u) :=
  ⟨(h.owns.acquire hfree (Finset.notMem_empty r) hneeds).update _, h.agree.insert hr hframe⟩

/-- A resource is given back and its record cleared. -/
theorem Rig.giveBack {r : Resource} {u : Softc → Softc} (h : Rig H D A st) (hheld : r ∈ H)
    (hunused : ∀ x ∈ r.users, x ∉ H) (hr : r ∈ intrResources → ¬(u st.sc).host.knows r)
    (hframe : ∀ x, x ≠ r → ((u st.sc).host.knows x ↔ st.sc.host.knows x)) :
    Rig (H.erase r) (insert r D) (A.erase r) ((st.release r).update u) :=
  ⟨(h.owns.release hheld hunused).update _, h.agree.erase hr hframe⟩

theorem Undone.giveBack {r : Resource} {u : Softc → Softc}
    (h : Undone (insert r H) (insert r A) st) (hH : r ∉ H) (hA : r ∉ A)
    (hunused : ∀ x ∈ r.users, x ∉ insert r H)
    (hr : r ∈ intrResources → ¬(u st.sc).host.knows r)
    (hframe : ∀ x, x ≠ r → ((u st.sc).host.knows x ↔ st.sc.host.knows x)) :
    Undone H A ((st.release r).update u) := by
  obtain ⟨D, h⟩ := h
  have hrel := h.giveBack (Finset.mem_insert_self r H) hunused hr hframe
  rw [Finset.erase_insert hH, Finset.erase_insert hA] at hrel
  exact ⟨_, hrel⟩

@[simp] theorem setDma_dma (b : DmaBuf) (g : DmaMem → DmaMem) (sc : Softc) :
    (setDma b g sc).dma b = g (sc.dma b) := Function.update_self ..

theorem setDma_setDma (b : DmaBuf) (f g : DmaMem → DmaMem) (sc : Softc) :
    setDma b g (setDma b f sc) = setDma b (fun m => g (f m)) sc := by
  simp [setDma, Function.update_idem]

theorem setDma_knows {g : DmaMem → DmaMem} {sc : Softc} {x : Resource} (hx : x ≠ .dmaTag b) :
    (setDma b g sc).host.knows x ↔ sc.host.knows x := by
  cases x with
  | dmaTag b' =>
    have hb : b' ≠ b := fun he => hx (congrArg _ he)
    simp only [HostFields.knows, Softc.host, setDma, Function.update_of_ne hb]
  | _ => exact Iff.rfl

theorem Agree.setDma (h : Agree A st.sc.host) (hb : .dmaTag b ∉ A) (g : DmaMem → DmaMem) :
    Agree A (setDma b g st.sc).host := by
  refine h.frame (fun x hx hknows => ?_) fun x hx hknows => ?_
  · exact (setDma_knows (ne_of_mem_of_not_mem hx hb)).mpr hknows
  · have hne : .dmaTag b ∉ intrResources := by simp [intrResources]
    exact (setDma_knows (ne_of_mem_of_not_mem hx hne)).mp hknows

/-- A buffer whose fields are all set is given back in three calls. -/
theorem freeDmabuf_eq (h : st.sc.host.knows (.dmaTag b)) :
    freeDmabuf b st = (((st.release (.dmaMap b)).release (.dmaMem b)).release (.dmaTag b)).update
      (setDma b fun _ => {}) := by
  obtain ⟨hdtag, hvaddr, hpaddr⟩ := h
  simp only [Softc.host] at hdtag hvaddr hpaddr
  have hsc : ∀ (st : St) (r : Resource) (u : Softc → Softc),
      ((st.release r).update u).sc = u st.sc := fun _ _ _ => rfl
  simp only [freeDmabuf, if_pos hpaddr, hsc, setDma_dma, hvaddr, hdtag, if_true]
  simp only [St.update, St.release, setDma_setDma]

theorem freeDmabuf_rig (h : Rig H D A st) (hheld : dmaOf b ⊆ H) (hknown : .dmaTag b ∈ A)
    (hun : Unwatched H) : Rig (H \ dmaOf b) (dmaOf b ∪ D) (A \ dmaOf b) (freeDmabuf b st) := by
  rw [freeDmabuf_eq (h.agree.known _ hknown)]
  simp only [dmaOf, Finset.insert_subset_iff, Finset.singleton_subset_iff] at hheld
  obtain ⟨hmap, hmem, htag⟩ := hheld
  constructor
  · have hmap' := h.owns.release hmap (by simp [Resource.users, hun.1])
    have hmem' := hmap'.release (Finset.mem_erase.mpr ⟨by simp, hmem⟩)
      (by simp [Resource.users, hun.1, hun.2])
    have htag' := hmem'.release (r := .dmaTag b) (by simp [htag]) (by simp [Resource.users])
    have hH : H \ dmaOf b = ((H.erase (.dmaMap b)).erase (.dmaMem b)).erase (.dmaTag b) := by
      grind [dmaOf]
    have hD : dmaOf b ∪ D = insert (.dmaTag b) (insert (.dmaMem b) (insert (.dmaMap b) D)) := by
      grind [dmaOf]
    rw [hH, hD]
    exact htag'.update _
  · have hb : .dmaTag b ∉ A \ dmaOf b := by simp [dmaOf]
    have hagree : Agree (A \ dmaOf b) st.sc.host := by
      refine ⟨fun r hr => h.agree.known r (Finset.sdiff_subset hr), fun r hr hknows => ?_⟩
      refine Finset.mem_sdiff.mpr ⟨h.agree.exact r hr hknows, fun hmem => ?_⟩
      simp only [dmaOf, Finset.mem_insert, Finset.mem_singleton] at hmem
      rcases hmem with rfl | rfl | rfl <;> simp [intrResources] at hr
    exact hagree.setDma hb _

/-- What `sfc7120_alloc_dmabuf` can do: take all three, or take some and give them back. -/
theorem allocDmabuf_cases (env : Env) (b : DmaBuf) (st : St) : ∃ evs g,
    (allocDmabuf env b st).1 = { st with sc := setDma b g st.sc, log := st.log ++ evs } ∧
    (((allocDmabuf env b st).2 = none ∧ (g (st.sc.dma b)).dtag = true ∧
        (g (st.sc.dma b)).vaddr = true ∧ (g (st.sc.dma b)).paddr ≠ 0 ∧
        evs = [.acquire (.dmaTag b), .acquire (.dmaMem b), .acquire (.dmaMap b)]) ∨
      ((allocDmabuf env b st).2 ≠ none ∧ (evs = [] ∨
        evs = [.acquire (.dmaTag b), .release (.dmaTag b)] ∨
        evs = [.acquire (.dmaTag b), .acquire (.dmaMem b), .release (.dmaMem b),
          .release (.dmaTag b)] ∨
        evs = [.acquire (.dmaTag b), .acquire (.dmaMem b), .acquire (.dmaMap b),
          .release (.dmaMap b), .release (.dmaMem b), .release (.dmaTag b)]))) := by
  rcases hreply : env.host.dma b with ⟨tagCreate, memAlloc, mapLoad, paddr⟩
  rcases tagCreate with _ | e
  · rcases memAlloc with _ | e
    · rcases mapLoad with _ | e
      · by_cases hp : paddr = 0#64
        · refine ⟨[.acquire (.dmaTag b), .acquire (.dmaMem b), .acquire (.dmaMap b),
            .release (.dmaMap b), .release (.dmaMem b), .release (.dmaTag b)],
            fun m => { m with dtag := false, vaddr := false, paddr := paddr }, ?_⟩
          simp [allocDmabuf, hreply, hp, St.acquire, St.release, St.update, setDma_setDma]
        · refine ⟨[.acquire (.dmaTag b), .acquire (.dmaMem b), .acquire (.dmaMap b)],
            fun m => { m with dtag := true, vaddr := true, paddr := paddr }, ?_⟩
          simp [allocDmabuf, hreply, hp, St.acquire, St.update, setDma_setDma]
      · refine ⟨[.acquire (.dmaTag b), .acquire (.dmaMem b), .release (.dmaMem b),
          .release (.dmaTag b)],
          fun m => { m with dtag := false, vaddr := false, paddr := paddr }, ?_⟩
        simp [allocDmabuf, hreply, St.acquire, St.release, St.update, setDma_setDma]
    · refine ⟨[.acquire (.dmaTag b), .release (.dmaTag b)], fun m => { m with dtag := false }, ?_⟩
      simp [allocDmabuf, hreply, St.acquire, St.release, St.update, setDma_setDma]
  · refine ⟨[], id, ?_⟩
    simp [allocDmabuf, hreply, setDma]

theorem Agree.addDma {f' : HostFields} {f : HostFields} (h : Agree A f) (hb : f'.knows (.dmaTag b))
    (hframe : ∀ x, x ≠ .dmaTag b → (f'.knows x ↔ f.knows x)) : Agree (dmaOf b ∪ A) f' := by
  simp only [dmaOf, Finset.insert_union, Finset.singleton_union]
  exact ((h.insert hb hframe).insert (r := .dmaMem b) trivial fun _ _ => Iff.rfl).insert
    (r := .dmaMap b) trivial fun _ _ => Iff.rfl

/-- What was taken one after the other goes back in the opposite order. -/
theorem allocDmabuf_leaves (hA : A ⊆ H) (hfree : Disjoint (dmaOf b) H) (hun : Unwatched H) :
    Leaves (Rig H ∅ A) (allocDmabuf env b) (Rig (dmaOf b ∪ H) ∅ (dmaOf b ∪ A)) (Undone H A) := by
  intro st h
  simp only [dmaOf, Finset.disjoint_insert_left, Finset.disjoint_singleton_left] at hfree
  obtain ⟨hmap, hmem, htag⟩ := hfree
  have hone := h.owns.acquire htag (Finset.notMem_empty _) (by simp [Resource.needs])
  have htwo := hone.acquire (r := .dmaMem b) (by simp [hmem]) (Finset.notMem_empty _)
    (by simp [Resource.needs])
  have hthree := htwo.acquire (r := .dmaMap b) (by simp [hmap]) (Finset.notMem_empty _)
    (by simp [Resource.needs])
  -- giving back from each height, whatever was given back before
  have hfreeTag : ∀ D st, Owns (insert (.dmaTag b) H) D st →
      Owns H (insert (.dmaTag b) D) (st.release (.dmaTag b)) := fun D st ho =>
    ho.release_insert htag (by simp [Resource.users, hmem, hmap])
  have hfreeMem : ∀ D st, Owns (insert (.dmaMem b) (insert (.dmaTag b) H)) D st →
      Owns (insert (.dmaTag b) H) (insert (.dmaMem b) D) (st.release (.dmaMem b)) := fun D st ho =>
    ho.release_insert (by simp [hmem]) (by simp [Resource.users, hmap, hun.1, hun.2])
  have hfreeMap : ∀ D st,
      Owns (insert (.dmaMap b) (insert (.dmaMem b) (insert (.dmaTag b) H))) D st →
      Owns (insert (.dmaMem b) (insert (.dmaTag b) H)) (insert (.dmaMap b) D)
        (st.release (.dmaMap b)) := fun D st ho =>
    ho.release_insert (by simp [hmap]) (by simp [Resource.users, hun.1])
  obtain ⟨evs, g, hst, ⟨hrc, hdtag, hvaddr, hpaddr, rfl⟩ | ⟨hrc, hevs⟩⟩ :=
    allocDmabuf_cases env b st
  · refine ⟨fun _ => ?_, fun hne => absurd hrc hne⟩
    rw [hst]
    constructor
    · simp only [dmaOf, Finset.insert_union, Finset.singleton_union]
      exact hthree.congr (by simp [St.acquire])
    · refine h.agree.addDma ?_ fun x hx => setDma_knows hx
      simp only [HostFields.knows, Softc.host, setDma_dma]
      exact ⟨hdtag, hvaddr, hpaddr⟩
  · refine ⟨fun hn => absurd hn hrc, fun _ => ?_⟩
    have hagree := h.agree.setDma (b := b) (fun hb => htag (hA hb)) g
    rw [hst]
    rcases hevs with rfl | rfl | rfl | rfl
    · exact ⟨_, h.owns.congr (by simp), hagree⟩
    · exact ⟨_, (hfreeTag _ _ hone).congr (by simp [St.acquire, St.release]), hagree⟩
    · exact ⟨_, (hfreeTag _ _ (hfreeMem _ _ htwo)).congr (by simp [St.acquire, St.release]),
        hagree⟩
    · exact ⟨_, (hfreeTag _ _ (hfreeMem _ _ (hfreeMap _ _ hthree))).congr
        (by simp [St.acquire, St.release]), hagree⟩

end

/-- What the DMA buffers `bs` take. -/
def dmaAll (bs : List DmaBuf) : Finset Resource := bs.foldr (fun b S => dmaOf b ∪ S) ∅

theorem disjoint_dmaOf {b b' : DmaBuf} (h : b' ≠ b) : Disjoint (dmaOf b') (dmaOf b) := by
  simp [dmaOf, h.symm]

theorem disjoint_dmaAll {b : DmaBuf} {bs : List DmaBuf} (h : b ∉ bs) :
    Disjoint (dmaAll bs) (dmaOf b) := by
  induction bs with
  | nil => exact Finset.disjoint_empty_left _
  | cons b' bs ih =>
    have hne := List.ne_of_not_mem_cons h
    exact Finset.disjoint_union_left.mpr
      ⟨disjoint_dmaOf hne.symm, ih (List.not_mem_of_not_mem_cons h)⟩

section
variable {env : Env} {H D A : Finset Resource} {st : St} {bs : List DmaBuf}

theorem primeRing_rig {b : DmaBuf} (h : Rig (dmaOf b ∪ H) D A st) :
    Rig (dmaOf b ∪ H) D A (primeRing b st) := by
  unfold primeRing
  split
  next => exact (h.use (by simp [dmaOf])).use (by simp [dmaOf])
  next => exact h

theorem freeDmabuf_undone {b : DmaBuf} (hA : A ⊆ H) (hb : Disjoint (dmaOf b) H) (hun : Unwatched H)
    (h : Undone (dmaOf b ∪ H) (dmaOf b ∪ A) st) : Undone H A (freeDmabuf b st) := by
  obtain ⟨D, h⟩ := h
  have hfreed := freeDmabuf_rig h Finset.subset_union_left (by simp [dmaOf])
    ⟨by simpa [dmaOf] using hun.1, by simpa [dmaOf] using hun.2⟩
  rw [Finset.union_sdiff_cancel_left hb,
    Finset.union_sdiff_cancel_left (hb.mono_right hA)] at hfreed
  exact ⟨_, hfreed⟩

theorem allocBufs_leaves (hnodup : bs.Nodup) (hA : A ⊆ H)
    (hfree : ∀ b ∈ bs, Disjoint (dmaOf b) H) (hun : Unwatched H) :
    Leaves (Rig H ∅ A) (allocBufs env bs) (Rig (dmaAll bs ∪ H) ∅ (dmaAll bs ∪ A))
      (Undone H A) := by
  induction bs generalizing H A with
  | nil =>
    simp only [dmaAll, List.foldr_nil, Finset.empty_union]
    exact fun st h => ⟨fun _ => h, fun hne => absurd rfl hne⟩
  | cons b bs ih =>
    obtain ⟨hb, hbs⟩ := List.forall_mem_cons.mp hfree
    obtain ⟨hnb, hnbs⟩ := List.nodup_cons.mp hnodup
    have hAb : dmaOf b ∪ A ⊆ dmaOf b ∪ H := Finset.union_subset_union_right hA
    have hrest := ih hnbs hAb (fun b' hb' => by
      have hne : b' ≠ b := ne_of_mem_of_not_mem hb' hnb
      exact Finset.disjoint_union_right.mpr ⟨disjoint_dmaOf hne, hbs b' hb'⟩)
      ⟨by simpa [dmaOf] using hun.1, by simpa [dmaOf] using hun.2⟩
    have hsum : ∀ S, dmaAll (b :: bs) ∪ S = dmaAll bs ∪ (dmaOf b ∪ S) := fun S => by
      simp only [dmaAll, List.foldr_cons]
      rw [Finset.union_assoc, Finset.union_left_comm]
    rw [hsum, hsum]
    have hpost : Leaves (Rig (dmaOf b ∪ H) ∅ (dmaOf b ∪ A))
        (fun st => allocBufs env bs (primeRing b st)) _ _ :=
      fun st h => hrest _ (primeRing_rig h)
    exact (allocDmabuf_leaves hA hb hun).andThen
      (hpost.unwinding fun st h => freeDmabuf_undone hA hb hun h)

/-- Buffers given back one after the other. -/
theorem freeAll_rig (hnodup : bs.Nodup) (hH : dmaAll bs ⊆ H) (hA : dmaAll bs ⊆ A)
    (hun : Unwatched H) (h : Rig H D A st) :
    Rig (H \ dmaAll bs) (dmaAll bs ∪ D) (A \ dmaAll bs)
      (bs.foldl (fun st b => freeDmabuf b st) st) := by
  induction bs generalizing H D A st with
  | nil => simpa [dmaAll] using h
  | cons b bs ih =>
    obtain ⟨hnb, hnbs⟩ := List.nodup_cons.mp hnodup
    obtain ⟨hbH, hbsH⟩ := Finset.union_subset_iff.mp hH
    obtain ⟨hbA, hbsA⟩ := Finset.union_subset_iff.mp hA
    have hdis := disjoint_dmaAll hnb
    have hfreed := freeDmabuf_rig h hbH (hbA (by simp [dmaOf])) hun
    have hrest := ih hnbs (Finset.subset_sdiff.mpr ⟨hbsH, hdis⟩)
      (Finset.subset_sdiff.mpr ⟨hbsA, hdis⟩)
      ⟨fun hm => hun.1 (Finset.sdiff_subset hm), fun hm => hun.2 (Finset.sdiff_subset hm)⟩ hfreed
    rw [sdiff_sdiff_left, sdiff_sdiff_left, ← Finset.union_assoc, Finset.union_comm (dmaAll bs)]
      at hrest
    exact hrest

theorem mcdiInitialized_knows (sc : Softc) (b : Bool) {x : Resource} (hx : x ≠ .mcdiMtx) :
    ({ sc with mcdiInitialized := b } : Softc).host.knows x ↔ sc.host.knows x := by
  cases x <;> first | exact Iff.rfl | exact absurd rfl hx

theorem mcdiFini_rig (h : Rig H D A st) (hH : insert .mcdiMtx (dmaOf .mcdi) ⊆ H)
    (hA : insert .mcdiMtx (dmaOf .mcdi) ⊆ A) (hun : Unwatched H) :
    Rig ((H \ dmaOf .mcdi).erase .mcdiMtx) (insert .mcdiMtx (dmaOf .mcdi ∪ D))
      ((A \ dmaOf .mcdi).erase .mcdiMtx) (mcdiFini st) := by
  obtain ⟨hmtx, hbuf⟩ := Finset.insert_subset_iff.mp hH
  obtain ⟨hmtx', hbuf'⟩ := Finset.insert_subset_iff.mp hA
  have hinit : st.sc.mcdiInitialized = true := h.agree.known _ hmtx'
  unfold mcdiFini
  rw [hinit, Bool.not_true, if_neg Bool.false_ne_true]
  have hfreed := freeDmabuf_rig h hbuf (hbuf' (by simp [dmaOf])) hun
  exact hfreed.giveBack (by simp [dmaOf, hmtx]) (by simp [Resource.users])
    (by simp [intrResources]) fun x hx => mcdiInitialized_knows _ false hx

theorem teardown_silent (os : List McObject) :
    Silent st (os.foldl (fun st o => (releaseOf env o st).1) st) := by
  induction os generalizing st with
  | nil => exact .refl st
  | cons o os ih => exact (releaseOf_silent o).trans ih

/-- Whatever the release commands come to. -/
theorem hwTeardown_rig (h : Rig H D A st) (hmail : ∀ r ∈ mailbox, r ∈ H)
    (hH : insert .mcdiMtx (dmaOf .mcdi) ⊆ H) (hA : insert .mcdiMtx (dmaOf .mcdi) ⊆ A)
    (hun : Unwatched H) :
    Rig ((H \ dmaOf .mcdi).erase .mcdiMtx) (insert .mcdiMtx (dmaOf .mcdi ∪ D))
      ((A \ dmaOf .mcdi).erase .mcdiMtx) (hwTeardown env st) :=
  mcdiFini_rig (h.silent hmail (teardown_silent teardownOrder)) hH hA hun

end

def locks : Finset Resource := {.scMtx, .rxMtx}

def onBus : Finset Resource := insert .busMaster (insert .bar2 locks)

def withMailbox : Finset Resource := dmaOf .mcdi ∪ insert .mcdiMtx onBus

def withRings : Finset Resource := dmaAll dmaOrder ∪ withMailbox

def withBar4 : Finset Resource := insert .bar4 withRings

def withMsix : Finset Resource := insert .msix withBar4

def withIrq : Finset Resource := insert .irq withMsix

def withIntr : Finset Resource := insert .intrHandler withIrq

/-- All that a successful attach holds. -/
def everything : Finset Resource := insert .capMtx (insert .cdev withIntr)

section
variable {env : Env} {st : St}

theorem deviceAlive_leaves {H A : Finset Resource} (hbar : .bar2 ∈ H) :
    Leaves (Rig H ∅ A) (deviceAlive env) (Rig H ∅ A) (Rig H ∅ A) := by
  apply Leaves.of_keeps
  intro st h
  simp only [deviceAlive]
  split_ifs
  · exact h
  · exact h.use hbar
  · exact h.use hbar

theorem mcdiSetup_leaves :
    Leaves (Rig (insert .mcdiMtx onBus) ∅ onBus) (mcdiSetup env)
      (Rig withMailbox ∅ (dmaOf .mcdi ∪ onBus)) (Undone onBus onBus) := by
  have hsub : onBus ⊆ insert .mcdiMtx onBus := Finset.subset_insert _ _
  have hdis : Disjoint (dmaOf .mcdi) (insert .mcdiMtx onBus) := by decide
  have hun : Unwatched (insert .mcdiMtx onBus) := by decide
  have halive : Leaves (Rig withMailbox ∅ (dmaOf .mcdi ∪ onBus))
      (unwinding (freeDmabuf .mcdi) (deviceAlive env)) (Rig withMailbox ∅ (dmaOf .mcdi ∪ onBus))
      (Undone (insert .mcdiMtx onBus) onBus) :=
    (deviceAlive_leaves (by decide)).unwinding fun st h =>
      freeDmabuf_undone hsub hdis hun ⟨∅, h⟩
  refine ((allocDmabuf_leaves hsub hdis hun).andThen halive).unwinding fun st hst => ?_
  obtain ⟨D, h⟩ := hst
  exact ⟨_, h.owns.release_insert (by decide) (by simp [Resource.users]), h.agree⟩

theorem mcdiInit_leaves :
    Leaves (Rig onBus ∅ onBus) (mcdiInit env) (Rig withMailbox ∅ withMailbox)
      (Undone onBus onBus) := by
  intro st h
  have hlocked : Rig (insert .mcdiMtx onBus) ∅ onBus (st.acquire .mcdiMtx) :=
    ⟨h.owns.acquire (by decide) (Finset.notMem_empty _) (by simp [Resource.needs]), h.agree⟩
  refine (mcdiSetup_leaves.andThen fun st h => ⟨fun _ => ⟨h.owns.update _, ?_⟩,
    fun hne => absurd rfl hne⟩) _ hlocked
  have hset : Agree (insert .mcdiMtx (dmaOf .mcdi ∪ onBus))
      ({ st.sc with mcdiInitialized := true } : Softc).host :=
    h.agree.insert rfl fun x hx => mcdiInitialized_knows _ true hx
  rwa [← Finset.union_insert] at hset

theorem allocDmaResources_leaves :
    Leaves (Rig withMailbox ∅ withMailbox) (allocDmaResources env) (Rig withRings ∅ withRings)
      (Undone withMailbox withMailbox) :=
  allocBufs_leaves (by decide) subset_rfl (by decide) (by decide)

theorem setMemResource_knows (sc : Softc) (b : Bool) {x : Resource} (hx : x ≠ .bar2) :
    (setMemResource b sc).host.knows x ↔ sc.host.knows x := by
  cases x <;> first | exact Iff.rfl | exact absurd rfl hx

theorem allocBar2_leaves :
    Leaves (Rig locks ∅ locks) (allocBar2 env) (Rig onBus ∅ onBus) (Undone locks locks) := by
  intro st h
  unfold allocBar2
  split
  next =>
    have hbar := h.take (r := .bar2) (by decide) (by decide) (u := setMemResource true) rfl
      fun x hx => setMemResource_knows _ true hx
    refine ⟨fun _ => ⟨?_, ?_⟩, fun hne => absurd rfl hne⟩
    · exact hbar.owns.acquire (by decide) (Finset.notMem_empty _) (by decide)
    · exact hbar.agree.insert trivial fun _ _ => Iff.rfl
  next =>
    refine ⟨fun hn => absurd hn (by simp), fun _ => ⟨∅, h.owns.update _, ?_⟩⟩
    exact h.agree.clear (by decide) (by simp [intrResources])
      fun x hx => setMemResource_knows _ false hx

end

section
variable {env : Env} {R D : Finset Resource} {st : St}

theorem setMsixBar_knows (sc : Softc) (b : Bool) {x : Resource} (hx : x ≠ .bar4) :
    (setMsixBar b sc).host.knows x ↔ sc.host.knows x := by
  cases x <;> first | exact Iff.rfl | exact absurd rfl hx

theorem setMsixNvec_knows (sc : Softc) (n : ℤ) {x : Resource} (hx : x ≠ .msix) :
    (setMsixNvec n sc).host.knows x ↔ sc.host.knows x := by
  cases x <;> first | exact Iff.rfl | exact absurd rfl hx

theorem setIrqResource_knows (sc : Softc) (b : Bool) {x : Resource} (hx : x ≠ .irq) :
    (setIrqResource b sc).host.knows x ↔ sc.host.knows x := by
  cases x <;> first | exact Iff.rfl | exact absurd rfl hx

theorem intrHandler_knows (sc : Softc) (b c : Bool) {x : Resource} (hx : x ≠ .intrHandler) :
    ({ sc with irqHandle := b, intrInitialized := c } : Softc).host.knows x ↔
      sc.host.knows x := by
  cases x <;> first | exact Iff.rfl | exact absurd rfl hx

theorem allocMsixBar_leaves (hR : .bar4 ∉ R) :
    Leaves (Rig R ∅ R) (allocMsixBar env) (Rig (insert .bar4 R) ∅ (insert .bar4 R))
      (Undone R R) := by
  intro st h
  unfold allocMsixBar
  split_ifs
  · exact ⟨by simp, fun _ => ⟨∅, h⟩⟩
  · refine ⟨fun _ => ?_, fun hne => absurd rfl hne⟩
    exact h.take hR (by simp [Resource.needs]) rfl fun x hx => setMsixBar_knows _ true hx
  · refine ⟨by simp, fun _ => ⟨∅, h.owns.update _, ?_⟩⟩
    exact h.agree.clear hR (fun _ => Bool.false_ne_true) fun x hx => setMsixBar_knows _ false hx

theorem allocMsix_leaves (hR : .msix ∉ R) (hbar : .bar4 ∈ R) :
    Leaves (Rig R ∅ R) (allocMsix env) (Rig (insert .msix R) ∅ R) (Undone R R) := by
  intro st h
  unfold allocMsix
  split
  next => exact ⟨by simp, fun _ => ⟨∅, h⟩⟩
  next =>
    refine ⟨fun _ => ⟨?_, h.agree⟩, fun hne => absurd rfl hne⟩
    exact h.owns.acquire hR (Finset.notMem_empty _) (by simp [Resource.needs, hbar])

/-- The count is stored before the IRQ is asked for, and the label clears it in any case. -/
theorem allocIrq_leaves (hirq : .irq ∉ R) (hmsix : .msix ∉ R) :
    Leaves (Rig (insert .msix R) ∅ R) (allocIrq env)
      (Rig (insert .irq (insert .msix R)) ∅ (insert .irq (insert .msix R)))
      (fun st => Undone (insert .msix R) R (st.update (setMsixNvec 0))) := by
  intro st h
  have hzero : ∀ sc : Softc, ¬(setMsixNvec 0 sc).host.knows .msix := fun _ => Int.lt_irrefl 0
  simp only [allocIrq]
  split_ifs with hgrant hres
  · refine ⟨by simp, fun _ => ⟨∅, h.owns.update _, ?_⟩⟩
    exact h.agree.clear hmsix (fun _ => hzero _) fun x hx => setMsixNvec_knows _ 0 hx
  · refine ⟨fun _ => ⟨?_, ?_⟩, fun hne => absurd rfl hne⟩
    · exact h.owns.acquire (by simp [hirq]) (Finset.notMem_empty _) (by simp [Resource.needs])
    · have hcount : Agree (insert .msix R) (setMsixNvec env.host.msixGranted st.sc).host := by
        refine h.agree.insert ?_ fun x hx => setMsixNvec_knows _ _ hx
        rw [not_not.mp hgrant]
        exact Int.zero_lt_one
      exact hcount.insert rfl fun x hx => setIrqResource_knows _ true hx
  · have hnone : Agree R (setMsixNvec 0 st.sc).host :=
      h.agree.clear hmsix (fun _ => hzero _) fun x hx => setMsixNvec_knows _ 0 hx
    have hnoirq : Agree R (setIrqResource false (setMsixNvec 0 st.sc)).host :=
      hnone.clear hirq (fun _ => Bool.false_ne_true) fun x hx => setIrqResource_knows _ false hx
    exact ⟨by simp, fun _ => ⟨∅, ((h.owns.update _).update _).update _, hnoirq⟩⟩

theorem setupIntr_leaves (hR : .intrHandler ∉ R)
    (hneeds : ∀ x ∈ Resource.intrHandler.needs, x ∈ R) :
    Leaves (Rig R ∅ R) (setupIntr env) (Rig (insert .intrHandler R) ∅ (insert .intrHandler R))
      (Undone R R) := by
  intro st h
  unfold setupIntr
  split
  next => exact ⟨by simp, fun _ => ⟨∅, h⟩⟩
  next =>
    refine ⟨fun _ => ?_, fun hne => absurd rfl hne⟩
    exact h.take (u := fun sc => { sc with irqHandle := true, intrInitialized := true }) hR hneeds
      ⟨rfl, rfl⟩ fun x hx => intrHandler_knows _ true true hx

theorem fail_irq_undone (h : Undone withIrq withIrq st) :
    Undone withMsix withBar4
      (((st.release .irq).update (setIrqResource false)).update (setMsixNvec 0)) := by
  have hrel : Undone withMsix withMsix ((st.release .irq).update (setIrqResource false)) :=
    h.giveBack (by decide) (by decide) (by decide) (fun _ => Bool.false_ne_true)
      fun x hx => setIrqResource_knows _ false hx
  obtain ⟨D, howns, hagree⟩ := hrel
  have hcount : Agree (withMsix.erase .msix)
      (setMsixNvec 0 ((st.release .irq).update (setIrqResource false)).sc).host :=
    hagree.erase (fun _ => Int.lt_irrefl 0) fun x hx => setMsixNvec_knows _ 0 hx
  rw [withMsix, Finset.erase_insert (by decide)] at hcount
  exact ⟨D, howns.update _, hcount⟩

theorem fail_msi_undone (h : Undone withMsix withBar4 (st.update (setMsixNvec 0))) :
    Undone withBar4 withBar4 ((st.release .msix).update (setMsixNvec 0)) := by
  obtain ⟨D, howns, hagree⟩ := h
  have hrel : Owns withBar4 _ ((st.update (setMsixNvec 0)).release .msix) :=
    howns.release_insert (by decide) (by decide)
  exact ⟨_, hrel.congr rfl, hagree⟩

theorem intrSetup_leaves :
    Leaves (Rig withRings ∅ withRings) (intrSetup env) (Rig withIntr ∅ withIntr)
      (Undone withRings withRings) := by
  have hbar : Leaves (Rig withRings ∅ withRings) (allocMsixBar env) (Rig withBar4 ∅ withBar4)
      (Undone withRings withRings) := allocMsixBar_leaves (by decide)
  have hmsix : Leaves (Rig withBar4 ∅ withBar4) (allocMsix env) (Rig withMsix ∅ withBar4)
      (Undone withBar4 withBar4) := allocMsix_leaves (by decide) (by decide)
  have hirq : Leaves (Rig withMsix ∅ withBar4) (allocIrq env) (Rig withIrq ∅ withIrq)
      (fun st => Undone withMsix withBar4 (st.update (setMsixNvec 0))) :=
    allocIrq_leaves (by decide) (by decide)
  have hintr : Leaves (Rig withIrq ∅ withIrq) (setupIntr env) (Rig withIntr ∅ withIntr)
      (Undone withIrq withIrq) := setupIntr_leaves (by decide) (by decide)
  have hfailBar : ∀ st : St, Undone withBar4 withBar4 st →
      Undone withRings withRings ((st.release .bar4).update (setMsixBar false)) := fun st h =>
    h.giveBack (by decide) (by decide) (by decide) (fun _ => Bool.false_ne_true)
      fun x hx => setMsixBar_knows _ false hx
  exact hbar.andThen ((hmsix.andThen ((hirq.andThen (hintr.unwinding fun st h =>
    fail_irq_undone h)).unwinding fun st h => fail_msi_undone h)).unwinding hfailBar)

theorem intrTeardown_eq_of_clear (hirq : st.sc.irqResource = false) (hnvec : ¬0 < st.sc.msixNvec)
    (hbar : st.sc.msixBarResource = false) :
    intrTeardown st = st.update fun sc => { sc with intrInitialized := false } := by
  simp [intrTeardown, St.update, hirq, hnvec, hbar]

theorem intrTeardown_eq_of_set (hintr : st.sc.intrInitialized = true)
    (hhandle : st.sc.irqHandle = true) (hirq : st.sc.irqResource = true)
    (hnvec : 0 < st.sc.msixNvec) (hbar : st.sc.msixBarResource = true) :
    intrTeardown st =
      (((((((st.release .intrHandler).update fun sc =>
        { sc with irqHandle := false, intrInitialized := false }).release .irq).update
          (setIrqResource false)).release .msix).update (setMsixNvec 0)).release .bar4).update
            (setMsixBar false) := by
  simp [intrTeardown, St.update, St.release, setIrqResource, setMsixNvec, setMsixBar, hintr,
    hhandle, hirq, hnvec, hbar]

/-- Without an interrupt there is nothing to tear down. -/
theorem intrTeardown_clear {H A : Finset Resource} (h : Rig H D A st)
    (hA : ∀ r ∈ intrResources, r ∉ A) : Rig H D A (intrTeardown st) := by
  have hno : ∀ r ∈ intrResources, ¬st.sc.host.knows r := fun r hr hknows =>
    hA r hr (h.agree.exact r hr hknows)
  rw [intrTeardown_eq_of_clear (Bool.not_eq_true _ ▸ hno .irq (by decide)) (hno .msix (by decide))
    (Bool.not_eq_true _ ▸ hno .bar4 (by decide))]
  refine ⟨h.owns.update _, h.agree.clear (hA .intrHandler (by decide)) ?_ fun x hx => ?_⟩
  · exact fun _ hknows => Bool.false_ne_true hknows.1
  · exact intrHandler_knows st.sc st.sc.irqHandle false hx

theorem intrTeardown_set {H A : Finset Resource} (h : Rig H D A st)
    (hA : ∀ r ∈ intrResources, r ∈ A) (hH : ∀ r ∈ intrResources, r ∈ H) :
    Rig ((((H.erase .intrHandler).erase .irq).erase .msix).erase .bar4)
      (insert .bar4 (insert .msix (insert .irq (insert .intrHandler D))))
      ((((A.erase .intrHandler).erase .irq).erase .msix).erase .bar4) (intrTeardown st) := by
  have hyes : ∀ r ∈ intrResources, st.sc.host.knows r := fun r hr => h.agree.known r (hA r hr)
  have hhandler := hyes .intrHandler (by decide)
  rw [intrTeardown_eq_of_set hhandler.1 hhandler.2 (hyes .irq (by decide))
    (hyes .msix (by decide)) (hyes .bar4 (by decide))]
  have hone := h.giveBack (u := fun sc => { sc with irqHandle := false, intrInitialized := false })
    (hH .intrHandler (by decide)) (by simp [Resource.users])
    (fun _ hknows => Bool.false_ne_true hknows.1)
    fun x hx => intrHandler_knows _ false false hx
  have htwo := hone.giveBack (r := .irq) (u := setIrqResource false)
    (by simpa using hH .irq (by decide)) (by simp [Resource.users]) (fun _ => Bool.false_ne_true)
    fun x hx => setIrqResource_knows _ false hx
  have hthree := htwo.giveBack (r := .msix) (u := setMsixNvec 0)
    (by simpa using hH .msix (by decide)) (by simp [Resource.users]) (fun _ => Int.lt_irrefl 0)
    fun x hx => setMsixNvec_knows _ 0 hx
  exact hthree.giveBack (r := .bar4) (u := setMsixBar false)
    (by simpa using hH .bar4 (by decide)) (by simp [Resource.users]) (fun _ => Bool.false_ne_true)
    fun x hx => setMsixBar_knows _ false hx

end

section
variable {env : Env} {H D A : Finset Resource} {st : St}

theorem commands_leave {ks : List Stage} (hks : ∀ k ∈ ks, k ∈ commandStages)
    (hmail : ∀ r ∈ mailbox, r ∈ H) :
    Leaves (Rig H ∅ A) (climb (Stage.step env) ks) (Rig H ∅ A) (Rig H ∅ A) :=
  Leaves.climb fun k hk => Leaves.of_keeps fun _ h => h.silent hmail (stage_silent (hks k hk))

/-- `fail_mcdi`, with or without the detach above it. -/
theorem mcdiFini_undone (h : Rig withMailbox D withMailbox st) :
    Undone onBus onBus (mcdiFini st) := by
  have hfini := mcdiFini_rig h (by decide) (by decide) (by decide)
  exact ⟨_, hfini.cast (by decide) rfl (by decide)⟩

theorem hwInit_leaves :
    Leaves (Rig onBus ∅ onBus) (hwInit env) (Rig withMailbox ∅ withMailbox)
      (Undone onBus onBus) := by
  have hmail : ∀ r ∈ mailbox, r ∈ withMailbox := by decide
  have hmcdi : Leaves (Rig withMailbox ∅ withMailbox) (climb (Stage.step env) mcdiStages)
      (Rig withMailbox ∅ withMailbox) (Rig withMailbox ∅ withMailbox) :=
    commands_leave (by decide) hmail
  have hfunction : Leaves (Rig withMailbox ∅ withMailbox)
      (unwinding (fun st => (drvDetach env st).1) (climb (Stage.step env) functionStages))
      (Rig withMailbox ∅ withMailbox) (Rig withMailbox ∅ withMailbox) :=
    (commands_leave (by decide) hmail).unwinding fun st h =>
      h.silent hmail (releaseOf_silent .attachment)
  exact mcdiInit_leaves.andThen ((hmcdi.andThen hfunction).unwinding fun st h => mcdiFini_undone h)

theorem postRxBuffers_rig (h : Rig withIntr D withIntr st) :
    Rig withIntr D withIntr (postRxBuffers st) :=
  ((h.use (by decide)).use (by decide)).use (by decide)

theorem setCdev_knows (sc : Softc) (b : Bool) {x : Resource} (hx : x ≠ .cdev) :
    (setCdev b sc).host.knows x ↔ sc.host.knows x := by
  cases x <;> first | exact Iff.rfl | exact absurd rfl hx

theorem makeDevCapio_leaves :
    Leaves (Rig withIntr ∅ withIntr) (makeDevCapio env)
      (Rig (insert .cdev withIntr) ∅ (insert .cdev withIntr)) (Undone withIntr withIntr) := by
  intro st h
  unfold makeDevCapio
  split
  next =>
    refine ⟨fun _ => ?_, fun hne => absurd rfl hne⟩
    exact h.take (by decide) (by decide) rfl fun x hx => setCdev_knows _ true hx
  next =>
    refine ⟨by simp, fun _ => ⟨∅, h.owns.update _, ?_⟩⟩
    exact h.agree.clear (by decide) (by simp [intrResources]) fun x hx => setCdev_knows _ false hx

/-- What `fail_dma` can find: the interrupt may not be set up. -/
def BeforeDma (st : St) : Prop := Undone withRings withRings st ∨ Undone withIntr withIntr st

theorem queueStages_leave :
    Leaves (Rig withRings ∅ withRings) (climb (Stage.step env) queueStages)
      (Rig (insert .cdev withIntr) ∅ (insert .cdev withIntr)) BeforeDma := by
  have hintr : Leaves (Rig withRings ∅ withRings) (Stage.step env .intrSetup)
      (Rig withIntr ∅ withIntr) BeforeDma := intrSetup_leaves.weaken (fun _ h => h) fun _ => .inl
  have hmake : Leaves (Rig withIntr ∅ withIntr) (Stage.step env .makeDev)
      (Rig (insert .cdev withIntr) ∅ (insert .cdev withIntr)) BeforeDma :=
    makeDevCapio_leaves.weaken (fun _ h => h) fun _ => .inr
  have hsteps : ∀ k ∈ [Stage.initEvq, .initDataEvq, .initRxq, .postRxBuffers, .initTxq,
      .filterInsert], Leaves (Rig withIntr ∅ withIntr) (Stage.step env k)
        (Rig withIntr ∅ withIntr) BeforeDma := by
    intro k hk
    refine (Leaves.of_keeps fun st h => ?_).weaken (fun _ h => h) fun st h => .inr ⟨∅, h⟩
    by_cases hpost : k = .postRxBuffers
    · subst hpost
      exact postRxBuffers_rig h
    · have hcmd : ∀ k ∈ [Stage.initEvq, .initDataEvq, .initRxq, .postRxBuffers, .initTxq,
          .filterInsert], k ≠ .postRxBuffers → k ∈ commandStages := by decide
      exact h.silent (by decide) (stage_silent (hcmd k hk hpost))
  have hdone : Leaves (Rig (insert .cdev withIntr) ∅ (insert .cdev withIntr))
      (climb (Stage.step env) []) (Rig (insert .cdev withIntr) ∅ (insert .cdev withIntr))
      BeforeDma := fun st h => ⟨fun _ => h, fun hne => absurd rfl hne⟩
  exact hintr.andThen ((hsteps .initEvq (by decide)).andThen
    ((hsteps .initDataEvq (by decide)).andThen ((hsteps .initRxq (by decide)).andThen
      ((hsteps .postRxBuffers (by decide)).andThen ((hsteps .initTxq (by decide)).andThen
        ((hsteps .filterInsert (by decide)).andThen (hmake.andThen hdone)))))))

theorem freeDmaResources_rig (h : Rig H D A st) (hH : dmaAll dmaOrder.reverse ⊆ H)
    (hA : dmaAll dmaOrder.reverse ⊆ A) (hun : Unwatched H) :
    Rig (H \ dmaAll dmaOrder.reverse) (dmaAll dmaOrder.reverse ∪ D) (A \ dmaAll dmaOrder.reverse)
      (freeDmaResources st) := freeAll_rig (by decide) hH hA hun h

theorem fail_hw_undone (h : Undone withMailbox withMailbox st) :
    Undone onBus onBus (hwTeardown env st) := by
  obtain ⟨D, h⟩ := h
  have hdown : Rig _ _ _ (hwTeardown env st) :=
    hwTeardown_rig h (by decide) (by decide) (by decide) (by decide)
  exact ⟨_, hdown.cast (by decide) rfl (by decide)⟩

theorem fail_dma_undone (h : BeforeDma st) :
    Undone onBus onBus (freeDmaResources (hwTeardown env (intrTeardown st))) := by
  have hquiet : Undone withRings withRings (intrTeardown st) := by
    rcases h with ⟨D, h⟩ | ⟨D, h⟩
    · exact ⟨D, intrTeardown_clear h (by decide)⟩
    · exact ⟨_, (intrTeardown_set h (by decide) (by decide)).cast (by decide) rfl (by decide)⟩
  obtain ⟨D, h⟩ := hquiet
  have hdown : Rig _ _ _ (hwTeardown env (intrTeardown st)) :=
    hwTeardown_rig h (by decide) (by decide) (by decide) (by decide)
  exact ⟨_, (freeDmaResources_rig hdown (by decide) (by decide) (by decide)).cast (by decide) rfl
    (by decide)⟩

/-- From the locks on, up to the last call that can fail. -/
theorem bringup_leaves :
    Leaves (Rig locks ∅ locks)
      (unwinding (fun st => (st.release .rxMtx).release .scMtx)
        (andThen (Stage.step env .bar2)
          (unwinding (fun st => (st.release .busMaster).release .bar2)
            (andThen (hwInit env)
              (andThen (unwinding (hwTeardown env) (Stage.step env .allocDma))
                (unwinding (fun st => freeDmaResources (hwTeardown env (intrTeardown st)))
                  (climb (Stage.step env) queueStages)))))))
      (Rig (insert .cdev withIntr) ∅ (insert .cdev withIntr)) (fun st => ∃ D, Owns ∅ D st) := by
  have hdma : Leaves (Rig withMailbox ∅ withMailbox)
      (unwinding (hwTeardown env) (Stage.step env .allocDma)) (Rig withRings ∅ withRings)
      (Undone onBus onBus) :=
    allocDmaResources_leaves.unwinding fun st h => fail_hw_undone h
  have hqueue : Leaves (Rig withRings ∅ withRings)
      (unwinding (fun st => freeDmaResources (hwTeardown env (intrTeardown st)))
        (climb (Stage.step env) queueStages))
      (Rig (insert .cdev withIntr) ∅ (insert .cdev withIntr)) (Undone onBus onBus) :=
    queueStages_leave.unwinding fun st h => fail_dma_undone h
  have hbar : Leaves (Rig locks ∅ locks) (Stage.step env .bar2) (Rig onBus ∅ onBus)
      (fun st => ∃ D, Owns locks D st) :=
    allocBar2_leaves.weaken (fun _ h => h) fun st ⟨D, h⟩ => ⟨D, h.owns⟩
  have hfailBar : ∀ st, Undone onBus onBus st →
      ∃ D, Owns locks D ((st.release .busMaster).release .bar2) := by
    rintro st ⟨D, h⟩
    have hrel := (h.owns.release (r := .busMaster) (by decide) (by decide)).release (r := .bar2)
      (by decide) (by decide)
    exact ⟨_, hrel.cast (by decide) rfl⟩
  have hfailLock : ∀ st, (∃ D, Owns locks D st) →
      ∃ D, Owns ∅ D ((st.release .rxMtx).release .scMtx) := by
    rintro st ⟨D, h⟩
    have hrel := (h.release (r := .rxMtx) (by decide) (by decide)).release (r := .scMtx)
      (by decide) (by decide)
    exact ⟨_, hrel.cast (by decide) rfl⟩
  exact (hbar.andThen ((hwInit_leaves.andThen (hdma.andThen hqueue)).unwinding hfailBar)).unwinding
    hfailLock

theorem publish_rig (h : Rig (insert .cdev withIntr) ∅ (insert .cdev withIntr) st) :
    Rig everything ∅ everything (publish st) := by
  constructor
  · have hmtx := h.owns.acquire (r := .capMtx) (by decide) (Finset.notMem_empty _) (by decide)
    exact (hmtx.congr rfl).use (by decide)
  · exact h.agree.insert trivial fun _ _ => Iff.rfl

theorem attach_leaves :
    Leaves (· = St.start) (attach env) (Rig everything ∅ everything)
      (fun st => ∃ D, Owns ∅ D st) := by
  rintro st rfl
  have hlocked : Rig locks ∅ locks ((St.start.acquire .scMtx).acquire .rxMtx) := by
    have hnone : Owns ∅ ∅ St.start := rfl
    have hlocks := (hnone.acquire (r := .scMtx) (by decide) (by decide) (by decide)).acquire
      (r := .rxMtx) (by decide) (by decide) (by decide)
    refine ⟨hlocks.cast (by decide) rfl, fun r hr => ?_, fun r hr hknows => ?_⟩
    · have htaken : ∀ r ∈ locks, r = .scMtx ∨ r = .rxMtx := by decide
      rcases htaken r hr with rfl | rfl <;> trivial
    · simp only [intrResources, List.mem_cons, List.not_mem_nil, or_false] at hr
      rcases hr with rfl | rfl | rfl | rfl <;>
        simp [HostFields.knows, Softc.host, St.acquire, St.start] at hknows
  exact (bringup_leaves.andThen fun st h =>
    ⟨fun _ => publish_rig h, fun hne => absurd rfl hne⟩) _ hlocked

theorem releaseCdev_rig (h : Rig H D A st) (hH : .cdev ∈ H) (hA : .cdev ∈ A) :
    Rig (H.erase .cdev) (insert .cdev D) (A.erase .cdev) (releaseCdev st) := by
  have hknown : st.sc.cdev = true := h.agree.known .cdev hA
  unfold releaseCdev
  rw [if_pos hknown]
  exact h.giveBack hH (by simp [Resource.users]) (by simp [intrResources])
    fun x hx => setCdev_knows _ false hx

theorem releaseBar2_rig (h : Rig H D A st) (hH : .bar2 ∈ H) (hA : .bar2 ∈ A) (hun : Unwatched H) :
    Rig (H.erase .bar2) (insert .bar2 D) (A.erase .bar2) (releaseBar2 st) := by
  have hknown : st.sc.memResource = true := h.agree.known .bar2 hA
  unfold releaseBar2
  rw [if_pos hknown]
  exact h.giveBack hH (by simp [Resource.users, hun.1, hun.2]) (by simp [intrResources])
    fun x hx => setMemResource_knows _ false hx

/-- The order is that of attach turned round, but for the locks, which go last. -/
theorem detach_owns (h : Rig everything ∅ everything st) : Owns ∅ everything (detach env st) := by
  have hdead : Rig everything ∅ everything
      ((st.use .scMtx).update fun sc => { sc with deviceAttached := false }) :=
    ⟨(h.owns.use (by decide)).update _, h.agree⟩
  have hcdev := releaseCdev_rig hdead (by decide) (by decide)
  have hintr := intrTeardown_set hcdev (by decide) (by decide)
  have hdown : Rig _ _ _ (hwTeardown env _) :=
    hwTeardown_rig hintr (by decide) (by decide) (by decide) (by decide)
  have hrings := freeDmaResources_rig hdown (by decide) (by decide) (by decide)
  have hbar := (releaseBar2_rig hrings (by decide) (by decide) (by decide)).owns
  have hbus := hbar.release (r := .busMaster) (by decide) (by decide)
  have hcap := hbus.release (r := .capMtx) (by decide) (by decide)
  have hlocks := (hcap.release (r := .rxMtx) (by decide) (by decide)).release (r := .scMtx)
    (by decide) (by decide)
  exact hlocks.cast (by decide) (by decide)

/-- For every choice of what the host and the firmware answer: attach that fails has given back
what it took, each once and with nothing that uses it left; attach that succeeds holds everything,
and the detach that follows gives everything back. -/
theorem host_resources_returned_once (env : Env) :
    ((attach env St.start).2 ≠ none → ∃ D, Owns ∅ D (attach env St.start).1) ∧
    ((attach env St.start).2 = none → Owns everything ∅ (attach env St.start).1 ∧
      Owns ∅ everything (detach env (attach env St.start).1)) := by
  have hleaves : Leaves (· = St.start) (attach env) _ _ := attach_leaves
  obtain ⟨hok, hfail⟩ := hleaves St.start rfl
  exact ⟨hfail, fun h => ⟨(hok h).owns, detach_owns (hok h)⟩⟩

end

end Sfc7120.Attach

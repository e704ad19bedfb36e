-- SUMMARY: Runs of interrupts through the 8259 controllers: which lines are in service, and which are masked.
import TalOS.Arch.Pic
import TalOS.Lib.Run

/-!
# Interrupts through the 8259 controllers

After `PIC_remap` the devices request, the CPU takes requests and exceptions, handlers are
interrupted by others, and each of them ends with the EOI of its stub. A controller is
only told that some handler has ended, so it has to work out by itself which one.
-/

namespace TalOS

/-! ## Lines of a vector -/

/-- The line of the first chip through which a vector has come. -/
def masterLine (vector : Nat) : Option Nat :=
  if HW_INT_START ≤ vector ∧ vector < HW_INT_START + 8 then some (vector - HW_INT_START)
  else if HW_INT_START + 8 ≤ vector ∧ vector < HW_INT_START + 16 then some 2
  else none

/-- The line of the second chip. -/
def slaveLine (vector : Nat) : Option Nat :=
  if HW_INT_START + 8 ≤ vector ∧ vector < HW_INT_START + 16 then some (vector - (HW_INT_START + 8)) else none

theorem masterLine_master {i : Nat} (hi : i < 8) : masterLine (HW_INT_START + i) = some i := by
  unfold masterLine
  rw [if_pos (by omega), Nat.add_sub_cancel_left]

theorem slaveLine_master {i : Nat} (hi : i < 8) : slaveLine (HW_INT_START + i) = none := by
  unfold slaveLine
  rw [if_neg (by omega)]

theorem masterLine_slave {i : Nat} (hi : i < 8) : masterLine (HW_INT_START + 8 + i) = some 2 := by
  unfold masterLine
  rw [if_neg (by omega), if_pos (by omega)]

theorem slaveLine_slave {i : Nat} (hi : i < 8) : slaveLine (HW_INT_START + 8 + i) = some i := by
  unfold slaveLine
  rw [if_pos (by omega), Nat.add_sub_cancel_left]

theorem lines_of_trap {vector : Nat} (h : vector < HW_INT_START ∨ HW_INT_START + 16 ≤ vector ∧ vector < INT_NUM) :
    masterLine vector = none ∧ slaveLine vector = none := by
  unfold masterLine slaveLine
  rw [if_neg (by omega), if_neg (by omega), if_neg (by omega)]
  exact ⟨rfl, rfl⟩

/-! ## What an event does -/

/-- The chips as `PIC_remap(0x20, 0x28)` initializes them. -/
structure PicSystem.Remapped (s : PicSystem) : Prop where
  offset : s.irqStartOffset = 0x20
  master : s.master.Initialized 0x20 4
  slave : s.slave.Initialized 0x28 2

variable {s s' : PicSystem} {vector : Nat}

theorem PicSystem.Remapped.cascades (h : s.Remapped) (i : Nat) : s.cascades i = true ↔ i = 2 := by
  unfold PicSystem.cascades
  rw [h.master.cascade, h.slave.cascade, Bool.and_eq_true, decide_eq_true_iff]
  constructor
  · rintro ⟨-, hi⟩
    exact hi.symm
  · rintro rfl
    exact ⟨rfl, rfl⟩

/-- The CPU takes a line of the first chip, or one of the second chip through line 2 of the first. -/
theorem PicSystem.Remapped.takeRequest (h : s.Remapped) (htake : s.takeRequest = some (vector, s')) :
    (∃ i, s.master.presents s.masterRequests = some i ∧ vector = HW_INT_START + i ∧
        s' = { s with master := s.master.acknowledge i }) ∨
      ∃ j, s.master.presents s.masterRequests = some 2 ∧ s.slave.presents s.slave.irr = some j ∧
        vector = HW_INT_START + 8 + j ∧
        s' = { s with master := s.master.acknowledge 2, slave := s.slave.acknowledge j } := by
  have hbase : s.master.vectorBase.toNat = HW_INT_START := by
    rw [h.master.vectorBase]
    rfl
  have hbase' : s.slave.vectorBase.toNat = HW_INT_START + 8 := by
    rw [h.slave.vectorBase]
    rfl
  unfold PicSystem.takeRequest at htake
  cases hmaster : s.master.presents s.masterRequests with
  | none =>
    rw [hmaster] at htake
    cases htake
  | some i =>
    rw [hmaster] at htake
    by_cases hcascade : s.cascades i = true
    · obtain rfl : i = 2 := (h.cascades i).mp hcascade
      simp only [Option.bind_eq_bind, Option.bind_some, hcascade, if_true] at htake
      obtain ⟨j, hslave, hresult⟩ := Option.bind_eq_some_iff.mp htake
      injection hresult with hresult
      injection hresult with hvector hstate
      exact .inr ⟨j, rfl, hslave, by rw [← hvector, hbase'], hstate.symm⟩
    · simp only [Option.bind_eq_bind, Option.bind_some, if_neg hcascade] at htake
      injection htake with hresult
      injection hresult with hvector hstate
      exact .inl ⟨i, rfl, by rw [← hvector, hbase], hstate.symm⟩

/-- Line 2 is the only one that the second chip can leave behind when its request is gone. -/
theorem PicSystem.Remapped.takeSpurious (h : s.Remapped) {slave : Bool}
    (htake : s.takeSpurious slave = some (vector, s')) :
    (slave = false ∧ vector = HW_INT_START + 7 ∧ s' = s) ∨
      (slave = true ∧ s.master.presents (lineBit 2) = some 2 ∧ vector = HW_INT_START + 8 + 7 ∧
        s' = { s with master := s.master.acknowledge 2 }) := by
  cases slave with
  | false =>
    injection htake with hresult
    injection hresult with hvector hstate
    refine .inl ⟨rfl, ?_, hstate.symm⟩
    rw [← hvector, h.master.vectorBase]
    rfl
  | true =>
    unfold PicSystem.takeSpurious at htake
    obtain ⟨i, hmaster, hresult⟩ := Option.bind_eq_some_iff.mp htake
    injection hresult with hresult
    injection hresult with hvector hstate
    obtain ⟨hlt, hbit, -, -⟩ := presents_spec hmaster
    have honly : ∀ i < 8, (lineBit 2).getLsbD i = true → i = 2 := by decide
    obtain rfl := honly i hlt hbit
    refine .inr ⟨rfl, hmaster, ?_, hstate.symm⟩
    rw [← hvector, h.slave.vectorBase]
    rfl

theorem PicSystem.Remapped.writeMasks (h : s.Remapped) (masks : PicMasks) :
    s.writeMasks masks =
      { s with master := { s.master with imr := masks.pic1 }, slave := { s.slave with imr := masks.pic2 } } := by
  unfold PicSystem.writeMasks
  rw [h.master.writeData, h.slave.writeData]

theorem changeMasks_cases {f : PicMasks → BitVec 32 → Option PicMasks} {irqN : BitVec 32}
    (h : s.changeMasks f irqN = some s') : s' = s ∨ ∃ masks, s' = s.writeMasks masks := by
  unfold PicSystem.changeMasks at h
  split at h
  · obtain ⟨masks, -, rfl⟩ := Option.map_eq_some_iff.mp h
    exact .inr ⟨masks, rfl⟩
  · exact .inl (Option.some.inj h).symm

/-! ## Lines in service -/

/-- What the lines in service, highest priority first, may have to do with those of the running handlers, innermost
first: it survives a line that is taken, and a handler that ends. -/
structure Tracks (R : List Nat → List Nat → Prop) : Prop where
  take : ∀ a l l', R l l' → R (a :: l) (a :: l')
  finish : ∀ a l l', R l (a :: l') → R l.tail l'

theorem tracks_eq : Tracks Eq where
  take a _ _ h := congrArg (a :: ·) h
  finish _ _ _ h := congrArg List.tail h

theorem tracks_sublist : Tracks List.Sublist where
  take _ _ _ h := h.cons_cons _
  finish a l l' h := by
    cases l with
    | nil => exact List.nil_sublist l'
    | cons b l =>
      cases h with
      | cons _ h => exact (List.sublist_cons_self b l).trans h
      | cons_cons _ h => exact h

/-- The lines in service on either chip are those of the running handlers, as far as `R` says. -/
structure Serving (R : List Nat → List Nat → Prop) (s : PicState) : Prop where
  remapped : s.system.Remapped
  vectors : ∀ v ∈ s.running, v < INT_NUM
  master : R (picLines s.system.master.isr) (s.running.filterMap masterLine)
  slave : R (picLines s.system.slave.isr) (s.running.filterMap slaveLine)

section
variable {R : List Nat → List Nat → Prop} {t t' : PicState} {running : List Nat}

theorem Serving.takeRequest (hR : Tracks R) (h : Serving R t) (htake : t.system.takeRequest = some (vector, s')) :
    Serving R ⟨s', vector :: t.running⟩ := by
  rcases h.remapped.takeRequest htake with ⟨i, hmaster, rfl, rfl⟩ | ⟨j, hmaster, hslave, rfl, rfl⟩
  · obtain ⟨hi, -⟩ := presents_spec hmaster
    refine ⟨⟨h.remapped.offset, h.remapped.master.acknowledge i, h.remapped.slave⟩, ?_, ?_, ?_⟩
    · refine List.forall_mem_cons.mpr ⟨?_, h.vectors⟩
      unfold HW_INT_START INT_NUM
      omega
    · rw [List.filterMap_cons_some (masterLine_master hi), h.remapped.master.acknowledge_lines hmaster]
      exact hR.take _ _ _ h.master
    · rw [List.filterMap_cons_none (slaveLine_master hi)]
      exact h.slave
  · obtain ⟨hj, -⟩ := presents_spec hslave
    refine ⟨⟨h.remapped.offset, h.remapped.master.acknowledge 2, h.remapped.slave.acknowledge j⟩, ?_, ?_, ?_⟩
    · refine List.forall_mem_cons.mpr ⟨?_, h.vectors⟩
      unfold HW_INT_START INT_NUM
      omega
    · rw [List.filterMap_cons_some (masterLine_slave hj), h.remapped.master.acknowledge_lines hmaster]
      exact hR.take _ _ _ h.master
    · rw [List.filterMap_cons_some (slaveLine_slave hj), h.remapped.slave.acknowledge_lines hslave]
      exact hR.take _ _ _ h.slave

/-- A request that is gone leaves a handler behind whose line is not in service. -/
theorem Serving.takeSpurious (hR : Tracks R) (hgone : ∀ a l l', R l l' → R l (a :: l')) (h : Serving R t)
    {slave : Bool} (htake : t.system.takeSpurious slave = some (vector, s')) :
    Serving R ⟨s', vector :: t.running⟩ := by
  have hlast : (7 : Nat) < 8 := by decide
  rcases h.remapped.takeSpurious htake with ⟨-, rfl, rfl⟩ | ⟨-, hmaster, rfl, rfl⟩
  · refine ⟨h.remapped, List.forall_mem_cons.mpr ⟨by decide, h.vectors⟩, ?_, ?_⟩
    · rw [List.filterMap_cons_some (masterLine_master hlast)]
      exact hgone _ _ _ h.master
    · rw [List.filterMap_cons_none (slaveLine_master hlast)]
      exact h.slave
  · refine ⟨⟨h.remapped.offset, h.remapped.master.acknowledge 2, h.remapped.slave⟩,
      List.forall_mem_cons.mpr ⟨by decide, h.vectors⟩, ?_, ?_⟩
    · rw [List.filterMap_cons_some (masterLine_slave hlast), h.remapped.master.acknowledge_lines hmaster]
      exact hR.take _ _ _ h.master
    · rw [List.filterMap_cons_some (slaveLine_slave hlast)]
      exact hgone _ _ _ h.slave

/-- The EOI takes the line of the handler that ends out of service, or the one that is in its place. -/
theorem Serving.finish (hR : Tracks R) (h : Serving R ⟨s, vector :: running⟩) :
    Serving R ⟨((stubEOI vector).run s).2, running⟩ := by
  obtain ⟨hvector, hvectors⟩ := List.forall_mem_cons.mp h.vectors
  have hmaster := h.master
  have hslave := h.slave
  rw [stubEOI_spec h.remapped.offset hvector]
  split_ifs with hlow hhigh
  · obtain ⟨i, rfl⟩ := Nat.exists_eq_add_of_le hlow.1
    have hi : i < 8 := by omega
    rw [List.filterMap_cons_some (masterLine_master hi)] at hmaster
    rw [List.filterMap_cons_none (slaveLine_master hi)] at hslave
    refine ⟨⟨h.remapped.offset, h.remapped.master.endOfInterrupt, h.remapped.slave⟩, hvectors, ?_, hslave⟩
    rw [picLines_endOfInterrupt]
    exact hR.finish _ _ _ hmaster
  · obtain ⟨j, rfl⟩ := Nat.exists_eq_add_of_le hhigh.1
    have hj : j < 8 := by omega
    rw [List.filterMap_cons_some (masterLine_slave hj)] at hmaster
    rw [List.filterMap_cons_some (slaveLine_slave hj)] at hslave
    refine ⟨⟨h.remapped.offset, h.remapped.master.endOfInterrupt, h.remapped.slave.endOfInterrupt⟩, hvectors, ?_, ?_⟩
    · rw [picLines_endOfInterrupt]
      exact hR.finish _ _ _ hmaster
    · rw [picLines_endOfInterrupt]
      exact hR.finish _ _ _ hslave
  · have hother : vector < HW_INT_START ∨ HW_INT_START + 16 ≤ vector ∧ vector < INT_NUM := by omega
    rw [List.filterMap_cons_none (lines_of_trap hother).1] at hmaster
    rw [List.filterMap_cons_none (lines_of_trap hother).2] at hslave
    exact ⟨h.remapped, hvectors, hmaster, hslave⟩

theorem Serving.changeMasks (h : Serving R t) {f : PicMasks → BitVec 32 → Option PicMasks} {irqN : BitVec 32}
    (hchange : t.system.changeMasks f irqN = some s') : Serving R { t with system := s' } := by
  rcases changeMasks_cases hchange with rfl | ⟨masks, rfl⟩
  · exact h
  · rw [h.remapped.writeMasks]
    exact ⟨⟨h.remapped.offset, h.remapped.master.setMask _, h.remapped.slave.setMask _⟩, h.vectors, h.master, h.slave⟩

theorem Serving.step (hR : Tracks R) {event : PicEvent}
    (hgone : ∀ slave, event = .takeSpurious slave → ∀ a l l', R l l' → R l (a :: l')) (h : Serving R t)
    (hstep : picStep event t = some t') : Serving R t' := by
  cases event with
  | request master slave =>
    obtain rfl := Option.some.inj hstep
    exact ⟨⟨h.remapped.offset, h.remapped.master.setRequests _, h.remapped.slave.setRequests _⟩, h.vectors, h.master,
      h.slave⟩
  | takeRequest =>
    obtain ⟨⟨vector, s'⟩, htake, rfl⟩ := Option.map_eq_some_iff.mp hstep
    exact h.takeRequest hR htake
  | takeSpurious slave =>
    obtain ⟨⟨vector, s'⟩, htake, rfl⟩ := Option.map_eq_some_iff.mp hstep
    exact h.takeSpurious hR (hgone slave rfl) htake
  | trap vector =>
    rw [picStep] at hstep
    split at hstep
    · next hvector =>
      obtain rfl := Option.some.inj hstep
      refine ⟨h.remapped, List.forall_mem_cons.mpr ⟨?_, h.vectors⟩, ?_, ?_⟩
      · unfold HW_INT_START at hvector
        unfold INT_NUM at *
        omega
      · rw [List.filterMap_cons_none (lines_of_trap hvector).1]
        exact h.master
      · rw [List.filterMap_cons_none (lines_of_trap hvector).2]
        exact h.slave
    · cases hstep
  | finish =>
    obtain ⟨s, running⟩ := t
    cases running with
    | nil => cases hstep
    | cons vector running =>
      obtain rfl := Option.some.inj hstep
      exact h.finish hR
  | enable irqN =>
    obtain ⟨s', hchange, rfl⟩ := Option.map_eq_some_iff.mp hstep
    exact h.changeMasks hchange
  | disable irqN =>
    obtain ⟨s', hchange, rfl⟩ := Option.map_eq_some_iff.mp hstep
    exact h.changeMasks hchange

end

/-- `PIC_remap` with the vectors that `InitSys` passes, and no handler running. -/
def remapped (s : PicSystem) : PicState := ⟨((picRemap 0x20 0x28).run s).2, []⟩

theorem remapped_system (s : PicSystem) : (remapped s).system.Remapped :=
  have hspec := picRemap_spec 0x20 0x28 s
  ⟨hspec.1, hspec.2.2.2.2.1, hspec.2.2.2.2.2⟩

theorem serving_remapped {R : List Nat → List Nat → Prop} (hnil : R [] []) (s : PicSystem) :
    Serving R (remapped s) := by
  obtain ⟨-, -, hmaster, hslave, -⟩ := picRemap_spec 0x20 0x28 s
  refine ⟨remapped_system s, List.forall_mem_nil _, ?_, ?_⟩
  · show R (picLines (((picRemap 0x20 0x28).run s).2).master.isr) []
    rw [hmaster]
    exact hnil
  · show R (picLines (((picRemap 0x20 0x28).run s).2).slave.isr) []
    rw [hslave]
    exact hnil

theorem serving_run (s : PicSystem) {events : List PicEvent} {t : PicState}
    (hrun : Run.run picStep events (remapped s) = some t) : Serving List.Sublist t := by
  refine Run.run_preserves (fun event t₁ t₂ (_ : True) h hstep => ?_) (Run.Along.of_forall (fun _ _ => trivial) _)
    hrun (serving_remapped List.Sublist.slnil s)
  exact h.step tracks_sublist (fun _ _ a l l' hsub => hsub.cons a) hstep

theorem serving_run_eq (s : PicSystem) {events : List PicEvent} {t : PicState}
    (hrun : Run.run picStep events (remapped s) = some t) (hnone : ∀ slave, .takeSpurious slave ∉ events) :
    Serving Eq t := by
  have hevents : ∀ event ∈ events, ∀ slave, event ≠ .takeSpurious slave := by
    rintro event hmem slave rfl
    exact hnone slave hmem
  refine Run.run_preserves (fun event t₁ t₂ (hne : ∀ slave, event ≠ .takeSpurious slave) h hstep => ?_)
    (Run.Along.of_forall hevents _) hrun (serving_remapped rfl s)
  exact h.step tracks_eq (fun slave heq => absurd heq (hne slave)) hstep

/-- In every run from `PIC_remap` on, however interrupts and exceptions interrupt each other: only lines whose
handlers still run are in service, so that no EOI is missing in the end; and as long as no request was gone when the
CPU took it, the lines in service are exactly those of the running handlers, so that each EOI ends its own. -/
theorem inService_run (s : PicSystem) {events : List PicEvent} {t : PicState}
    (hrun : Run.run picStep events (remapped s) = some t) :
    (picLines t.system.master.isr).Sublist (t.running.filterMap masterLine) ∧
      (picLines t.system.slave.isr).Sublist (t.running.filterMap slaveLine) ∧
      ((∀ slave, .takeSpurious slave ∉ events) →
        picLines t.system.master.isr = t.running.filterMap masterLine ∧
          picLines t.system.slave.isr = t.running.filterMap slaveLine) := by
  have hsub := serving_run s hrun
  refine ⟨hsub.master, hsub.slave, fun hnone => ?_⟩
  have heq := serving_run_eq s hrun hnone
  exact ⟨heq.master, heq.slave⟩

/-- Two chips with no line masked, before they are initialized. -/
def resetPics : PicSystem where
  master := ⟨.ready, false, false, 0, 0, 0, 0, 0, 0, false⟩
  slave := ⟨.ready, false, false, 0, 0, 0, 0, 0, 0, false⟩
  irqStartOffset := 0

/-- The handler of the RTC, line 8, is interrupted by a page fault and by the keyboard. -/
theorem inService_run_rtc :
    ∃ t, Run.run picStep [.request 0x00 0x01, .takeRequest, .trap 14, .request 0x02 0x00, .takeRequest]
        (remapped resetPics) = some t ∧
      t.running = [0x21, 14, 0x28] ∧ picLines t.system.master.isr = [1, 2] ∧ picLines t.system.slave.isr = [0] := by
  obtain ⟨t, hrun, hrunning⟩ : ∃ t, Run.run picStep [.request 0x00 0x01, .takeRequest, .trap 14, .request 0x02 0x00,
      .takeRequest] (remapped resetPics) = some t ∧ t.running = [0x21, 14, 0x28] := ⟨_, rfl, rfl⟩
  have hlines := (inService_run resetPics hrun).2.2 (by simp)
  rw [hrunning] at hlines
  exact ⟨t, hrun, hrunning, hlines⟩

/-! ## Masks -/

/-- A line is masked at its own chip. -/
def PicMasks.masked (masks : PicMasks) (l : Nat) : Bool :=
  if l < 8 then masks.pic1.getLsbD l else masks.pic2.getLsbD (l - 8)

/-- The line that `EnableIRQ` and `DisableIRQ` change for a vector, if any. -/
def picLine (irqN : BitVec 32) : Option Nat :=
  if isHwVector irqN then some (irqN.setWidth 8 - .ofNat 8 HW_INT_START).toNat else none

/-- Whether a line is masked after an event. -/
def PicEvent.masks (l : Nat) (masked : Bool) : PicEvent → Bool
  | .enable irqN => if picLine irqN = some l then false else masked
  | .disable irqN => if picLine irqN = some l then true else masked
  | _ => masked

/-- What the last call for a line set its mask to. -/
def lastMask (l : Nat) (start : Bool) (events : List PicEvent) : Bool := events.foldl (PicEvent.masks l) start

theorem lastMask_concat (l : Nat) (start : Bool) (events : List PicEvent) (event : PicEvent) :
    lastMask l start (events ++ [event]) = event.masks l (lastMask l start events) := List.foldl_append

theorem picLineBit_getLsbD {irqLine bit : BitVec 8} (h : picLineBit irqLine = some bit) {i : Nat} (hi : i < 8) :
    bit.getLsbD i = decide (i = irqLine.toNat) := by
  unfold picLineBit at h
  split at h
  · next hlt =>
    obtain rfl := Option.some.inj h
    have hone : (1#32 <<< irqLine.toNat).getLsbD i = decide (i = irqLine.toNat) := by
      rw [BitVec.getLsbD_shiftLeft, BitVec.getLsbD_one, Bool.eq_iff_iff]
      simp only [Bool.and_eq_true, Bool.not_eq_true', decide_eq_true_eq, decide_eq_false_iff_not]
      omega
    rw [BitVec.getLsbD_setWidth, hone]
    simp [hi]
  · cases h

/-- A function that changes the bit of a line changes the mask of that line only. -/
theorem masked_update {masks masks' : PicMasks} {irqLine : BitVec 8} {f : BitVec 8 → BitVec 8 → BitVec 8} {b : Bool}
    (hf : ∀ value bit : BitVec 8, ∀ i < 8, (f value bit).getLsbD i = if bit.getLsbD i then b else value.getLsbD i)
    (h : picUpdateMask masks irqLine f = some masks') {l : Nat} (hl : l < 16) :
    masks'.masked l = if irqLine.toNat = l then b else masks.masked l := by
  unfold picUpdateMask at h
  unfold PicMasks.masked
  split at h
  · next hlow =>
    have hlow' : irqLine.toNat < 8 := BitVec.lt_def.mp hlow
    obtain ⟨bit, hbit, rfl⟩ := Option.map_eq_some_iff.mp h
    by_cases h8 : l < 8
    · rw [if_pos h8, if_pos h8, hf _ _ _ h8, picLineBit_getLsbD hbit h8]
      simp [eq_comm]
    · rw [if_neg h8, if_neg h8, if_neg (by omega)]
  · next hhigh =>
    have hhigh' : 8 ≤ irqLine.toNat := Nat.not_lt.mp fun hlt => hhigh (BitVec.lt_def.mpr hlt)
    obtain ⟨bit, hbit, rfl⟩ := Option.map_eq_some_iff.mp h
    have hsub : (irqLine - 8).toNat = irqLine.toNat - 8 := BitVec.toNat_sub_of_le (BitVec.le_def.mpr hhigh')
    by_cases h8 : l < 8
    · rw [if_pos h8, if_pos h8, if_neg (by omega)]
    · have hl' : l - 8 < 8 := by omega
      rw [if_neg h8, if_neg h8, hf _ _ _ hl', picLineBit_getLsbD hbit hl', hsub]
      have hsame : l - 8 = irqLine.toNat - 8 ↔ irqLine.toNat = l := by omega
      simp only [decide_eq_true_eq, hsame]

theorem getLsbD_clear (value bit : BitVec 8) (i : Nat) (hi : i < 8) :
    (value &&& ~~~bit).getLsbD i = if bit.getLsbD i then false else value.getLsbD i := by
  rw [BitVec.getLsbD_and, BitVec.getLsbD_not, decide_eq_true hi]
  cases bit.getLsbD i <;> simp

theorem getLsbD_set (value bit : BitVec 8) (i : Nat) (_ : i < 8) :
    (value ||| bit).getLsbD i = if bit.getLsbD i then true else value.getLsbD i := by
  cases h : bit.getLsbD i <;> simp [h]

/-- `EnableIRQ` or `DisableIRQ`, the one that sets a mask to `b`. -/
theorem masked_change {f : PicMasks → BitVec 32 → Option PicMasks} {g : BitVec 8 → BitVec 8 → BitVec 8} {b : Bool}
    (hf : ∀ masks irqN, f masks irqN = picUpdateMask masks (irqN.setWidth 8 - .ofNat 8 HW_INT_START) g)
    (hg : ∀ value bit : BitVec 8, ∀ i < 8, (g value bit).getLsbD i = if bit.getLsbD i then b else value.getLsbD i)
    (hs : s.Remapped) {irqN : BitVec 32} (hchange : s.changeMasks f irqN = some s') {l : Nat} (hl : l < 16) :
    s'.masks.masked l = if picLine irqN = some l then b else s.masks.masked l := by
  unfold PicSystem.changeMasks at hchange
  unfold picLine
  split at hchange
  · next hvector =>
    obtain ⟨masks, hmasks, rfl⟩ := Option.map_eq_some_iff.mp hchange
    rw [hf] at hmasks
    have hwrite : (s.writeMasks masks).masks = masks := by
      rw [hs.writeMasks]
      rfl
    rw [hwrite, masked_update hg hmasks hl, if_pos hvector]
    simp only [Option.some_inj]
  · next hvector =>
    obtain rfl := Option.some.inj hchange
    rw [if_neg hvector, if_neg (by simp)]

theorem endOfInterrupt_imr (c : Pic) : c.endOfInterrupt.imr = c.imr := by
  unfold Pic.endOfInterrupt
  split <;> rfl

theorem masked_step {t t' : PicState} {event : PicEvent} (h : Serving List.Sublist t)
    (hstep : picStep event t = some t') {l : Nat} (hl : l < 16) :
    t'.system.masks.masked l = event.masks l (t.system.masks.masked l) := by
  cases event with
  | request master slave =>
    obtain rfl := Option.some.inj hstep
    rfl
  | takeRequest =>
    obtain ⟨⟨vector, s'⟩, htake, rfl⟩ := Option.map_eq_some_iff.mp hstep
    rcases h.remapped.takeRequest htake with ⟨i, -, -, rfl⟩ | ⟨j, -, -, -, rfl⟩ <;> rfl
  | takeSpurious slave =>
    obtain ⟨⟨vector, s'⟩, htake, rfl⟩ := Option.map_eq_some_iff.mp hstep
    rcases h.remapped.takeSpurious htake with ⟨-, -, rfl⟩ | ⟨-, -, -, rfl⟩ <;> rfl
  | trap vector =>
    rw [picStep] at hstep
    split at hstep
    · obtain rfl := Option.some.inj hstep
      rfl
    · cases hstep
  | finish =>
    obtain ⟨s, running⟩ := t
    cases running with
    | nil => cases hstep
    | cons vector running =>
      obtain rfl := Option.some.inj hstep
      have hmasks : (((stubEOI vector).run s).2).masks = s.masks := by
        rw [stubEOI_spec h.remapped.offset (h.vectors vector List.mem_cons_self)]
        unfold PicSystem.masks
        split_ifs <;> simp only [endOfInterrupt_imr]
      exact congrArg (PicMasks.masked · l) hmasks
  | enable irqN =>
    obtain ⟨s', hchange, rfl⟩ := Option.map_eq_some_iff.mp hstep
    exact masked_change (f := picEnableIrq) (fun _ _ => rfl) getLsbD_clear h.remapped hchange hl
  | disable irqN =>
    obtain ⟨s', hchange, rfl⟩ := Option.map_eq_some_iff.mp hstep
    exact masked_change (f := picDisableIrq) (fun _ _ => rfl) getLsbD_set h.remapped hchange hl

theorem masked_remapped (s : PicSystem) (l : Nat) : (remapped s).system.masks.masked l = s.masks.masked l :=
  congrArg (PicMasks.masked · l) (picRemap_spec 0x20 0x28 s).2.1

theorem masked_run (s : PicSystem) {events : List PicEvent} {t : PicState}
    (hrun : Run.run picStep events (remapped s) = some t) {l : Nat} (hl : l < 16) :
    t.system.masks.masked l = lastMask l (s.masks.masked l) events := by
  refine Run.run_history (P := fun events t => t.system.masks.masked l = lastMask l (s.masks.masked l) events)
    (masked_remapped s l) ?_ hrun
  intro events event t₁ t₂ hbefore hmasked hstep
  rw [lastMask_concat, ← hmasked]
  exact masked_step (serving_run s hbefore) hstep hl

/-- In every run from `PIC_remap` on the mask of each line is what the last call for it set, or what it was before
`PIC_remap`; and what the CPU takes is a line that is not masked, and that has come through the unmasked line 2 if it
belongs to the second chip. -/
theorem takeRequest_run (s : PicSystem) {events : List PicEvent} {t : PicState}
    (hrun : Run.run picStep events (remapped s) = some t) :
    (∀ l < 16, t.system.masks.masked l = lastMask l (s.masks.masked l) events) ∧
      ∀ t', picStep .takeRequest t = some t' → ∃ l < 16, t'.running = (HW_INT_START + l) :: t.running ∧
        lastMask l (s.masks.masked l) events = false ∧
        (8 ≤ l → lastMask 2 (s.masks.masked 2) events = false) := by
  have hmasks (l : Nat) (hl : l < 16) := masked_run s hrun hl
  have hmaster (i : Nat) (hi : i < 8) : lastMask i (s.masks.masked i) events = t.system.master.imr.getLsbD i := by
    rw [← hmasks i (by omega), PicMasks.masked, if_pos hi]
    rfl
  have hslave (j : Nat) (hj : j < 8) :
      lastMask (8 + j) (s.masks.masked (8 + j)) events = t.system.slave.imr.getLsbD j := by
    rw [← hmasks (8 + j) (by omega), PicMasks.masked, if_neg (by omega), Nat.add_sub_cancel_left]
    rfl
  refine ⟨hmasks, fun t' hstep => ?_⟩
  obtain ⟨⟨vector, s'⟩, htake, rfl⟩ := Option.map_eq_some_iff.mp hstep
  rcases (serving_run s hrun).remapped.takeRequest htake with ⟨i, hi, rfl, -⟩ | ⟨j, hi, hj, rfl, -⟩
  · obtain ⟨hlt, -, hfree, -⟩ := presents_spec hi
    exact ⟨i, by omega, rfl, (hmaster i hlt).trans hfree, fun h => absurd hlt (Nat.not_lt.mpr h)⟩
  · obtain ⟨hlt, -, hfree, -⟩ := presents_spec hj
    obtain ⟨-, -, hfree', -⟩ := presents_spec hi
    exact ⟨8 + j, by omega, congrArg (· :: t.running) (Nat.add_assoc _ 8 j), (hslave j hlt).trans hfree,
        fun _ => (hmaster 2 (by decide)).trans hfree'⟩

/-- Two chips with every line but line 2 masked. -/
def maskedPics : PicSystem where
  master := ⟨.ready, false, false, 0, 0, 0, 0xFB, 0, 0, false⟩
  slave := ⟨.ready, false, false, 0, 0, 0, 0xFF, 0, 0, false⟩
  irqStartOffset := 0

/-- The keyboard is enabled, and enabled again after it was disabled; the RTC stays masked. -/
theorem takeRequest_run_keyboard :
    ∃ t, Run.run picStep [.enable 0x21, .disable 0x21, .enable 0x21, .request 0x03 0x01]
        (remapped maskedPics) = some t ∧
      t.system.masks.masked 1 = false ∧ t.system.masks.masked 8 = true := by
  obtain ⟨t, hrun⟩ : ∃ t, Run.run picStep [.enable 0x21, .disable 0x21, .enable 0x21, .request 0x03 0x01]
      (remapped maskedPics) = some t := ⟨_, rfl⟩
  have hmasks := (takeRequest_run maskedPics hrun).1
  exact ⟨t, hrun, hmasks 1 (by decide), hmasks 8 (by decide)⟩

end TalOS

import Trusty.Virtio.Bus
import Trusty.Virtio.RingBounds

/-!
What the device holds between the calls of the non-secure side.
-/

namespace Trusty.Virtio

open Lib Kernel Function

section Properties

variable {arch : Arch}

/-- Threads and mappings as the state of the device says. -/
structure Consistent (sys : System arch) : Prop where
  reset_iff : sys.dev.state = .reset ↔
    sys.rxThreads = 0 ∧ sys.txThreads = 0 ∧ ∀ index, sys.maps index = []
  one_rx : sys.rxThreads ≤ 1
  one_tx : sys.txThreads ≤ 1
  one_map : ∀ index, (sys.maps index).length ≤ 1
  no_bad_free : sys.badFrees = 0

structure ProbeSound (sys : System arch) (fresh : Bool) (probe : Probe arch) : Prop where
  released : probe.ret ≠ noError →
    probe.sys.rxThreads = sys.rxThreads ∧ probe.sys.txThreads = sys.txThreads ∧
    probe.sys.maps = sys.maps
  freed : probe.sys.badFrees = sys.badFrees
  first_zero : probe.ret = noError → fresh → ∀ index, probe.first index = 0

/-- `vmm_alloc_physical` succeeds for the ring. -/
def MapsRing (descr : TipcVdevDescr) (answers : ProbeAnswers arch) (index : Fin tipcVqNum) : Prop :=
  (vmmAllocPhysical (roundup ((vringSize (descr.vrings index).num
    ((descr.vrings index).align.setWidth arch.bits)).setWidth arch.bits)
    (BitVec.ofNat arch.bits pageSize))
    ((descr.vrings index).da.setWidth arch.bits) (answers.spots index)).1 = noError

/-- The condition on a start that gets as far as the rings: both are mapped, GO_ONLINE is
sent, and if the rings are fresh they have not been used before; or nothing at all is
acquired. -/
def GoodStart (sys : System arch) (descr : TipcVdevDescr) (answers : ProbeAnswers arch) : Prop :=
  (∀ index, MapsRing descr answers index) ∧
    ((answers.goOnline = noError ∧
        ringPages arch (descr.vrings tipcVqTx).num (descr.vrings tipcVqTx).align ≠ 0 ∧
        (answers.fresh → ∀ index, (sys.dev.vqs index).lastAvailIdx = 0)) ∨
      ((∀ index, ringPages arch (descr.vrings index).num (descr.vrings index).align = 0) ∧
        answers.rxThread = false ∧ answers.txThread = false))

def Favourable (sys : System arch) : Call arch → Prop
  | .start pa size descr memory spot answers =>
    (startProbe sys (.start pa size descr memory spot answers)).isSome → sys.dev.state = .reset →
      validateDescr descr = noError → GoodStart sys descr answers
  | _ => True

/-- States after favourable calls, from the start of the system. -/
inductive Reach (descrSz : Nat) : System arch → Prop
  | boot : Reach descrSz System.boot
  | step {sys next : System arch} {call : Call arch} (reached : Reach descrSz sys)
      (favourable : Favourable sys call) (stepped : step descrSz sys call = some next) :
      Reach descrSz next

end Properties

/-! ### Rings -/

section Rings

variable {arch : Arch} {sys : System arch}

/-- A ring has one mapping, at the address in the queue, or none. -/
def RingOk (sys : System arch) (index : Fin tipcVqNum) : Prop :=
  ((sys.dev.vqs index).vringAddr = 0 ∧ sys.maps index = []) ∨
    ∃ window, sys.maps index = [window] ∧ window.base = (sys.dev.vqs index).vringAddr ∧
      (sys.dev.vqs index).vringAddr ≠ 0

variable {index other : Fin tipcVqNum} {vq : Vqueue arch} {vring : FwRscVdevVring}
  {spot : Option (Spot arch)}

theorem RingOk.length_le (ok : RingOk sys index) : (sys.maps index).length ≤ 1 := by
  obtain ⟨-, none⟩ | ⟨window, one, -⟩ := ok
  · rw [none]
    exact Nat.zero_le _
  · rw [one]
    exact Nat.le_refl _

theorem vqueueDestroy_maps (ok : RingOk sys index) : (vqueueDestroy sys index).maps index = [] := by
  change update sys.maps index _ index = []
  rw [update_self]
  obtain ⟨-, none⟩ | ⟨window, one, base, -⟩ := ok
  · rw [none]
    rfl
  · rw [one, List.filter_cons_of_neg (by simpa using base)]
    rfl

theorem vqueueDestroy_maps_ne (ne : other ≠ index) :
    (vqueueDestroy sys index).maps other = sys.maps other :=
  update_of_ne ne _ _

theorem vqueueDestroy_ringOk (ne : other ≠ index) (ok : RingOk sys other) :
    RingOk (vqueueDestroy sys index) other := by
  have vq : (vqueueDestroy sys index).dev.vqs other = sys.dev.vqs other := update_of_ne ne _ _
  unfold RingOk
  rw [vqueueDestroy_maps_ne ne, vq]
  exact ok

theorem initVring_eq_of_fails (fails : (initVring vq vring spot).ret ≠ noError) :
    (initVring vq vring spot).freed = true := by
  unfold initVring vqueueInit at fails ⊢
  simp only at fails ⊢
  split at fails
  case isTrue failed => rw [if_pos failed]
  case isFalse => exact absurd rfl fails

theorem initVring_ret_iff (vq : Vqueue arch) (descr : TipcVdevDescr) (answers : ProbeAnswers arch)
    (index : Fin tipcVqNum) :
    (initVring vq (descr.vrings index) (answers.spots index)).ret = noError ↔
    MapsRing descr answers index := by
  unfold initVring vqueueInit MapsRing
  simp only
  split
  case isTrue failed => exact ⟨fun ok => absurd ok failed, fun ok => absurd ok failed⟩
  case isFalse ok => exact ⟨fun _ => not_not.mp ok, fun _ => rfl⟩

/-- What a successful `vqueue_init` leaves in the queue. -/
structure RingStarted (vq : Vqueue arch) (vring : FwRscVdevVring) (result : VqueueInit arch) :
    Prop where
  not_freed : result.freed = false
  idx_kept : result.vq.lastAvailIdx = vq.lastAvailIdx
  mapping :
    (ringPages arch vring.num vring.align = 0 ∧ result.mapping = none ∧ result.vq.vringAddr = 0) ∨
      (ringPages arch vring.num vring.align ≠ 0 ∧ ∃ window, result.mapping = some window ∧
      window.base = result.vq.vringAddr ∧ result.vq.vringAddr ≠ 0)

theorem initVring_started (ok : (initVring vq vring spot).ret = noError) :
    RingStarted vq vring (initVring vq vring spot) := by
  have mapped := initVring_ok ok
  unfold initVring vqueueInit at ok mapped ⊢
  simp only at ok mapped ⊢
  split at ok
  case isTrue failed => exact absurd ok failed
  case isFalse succeeded =>
    rw [if_neg succeeded] at mapped ⊢
    refine ⟨rfl, rfl, ?_⟩
    obtain ⟨empty, unmapped⟩ | ⟨place, -, nonempty, window, -⟩ := mapped
    · refine .inl ⟨empty, unmapped, ?_⟩
      dsimp only at unmapped ⊢
      rw [unmapped]
      rfl
    · refine .inr ⟨nonempty, _, window, ?_⟩
      dsimp only at window ⊢
      rw [window]
      exact ⟨rfl, place.nonzero⟩

theorem vq_cases (index : Fin tipcVqNum) : index = tipcVqTx ∨ index = tipcVqRx := by
  revert index
  decide

theorem rx_ne_tx : tipcVqRx ≠ tipcVqTx := by decide

structure Readied (sys : System arch) (descr : TipcVdevDescr) (ready : System arch) : Prop where
  rx_eq : ready.rxThreads = sys.rxThreads
  tx_eq : ready.txThreads = sys.txThreads
  state_eq : ready.dev.state = sys.dev.state
  frees_eq : ready.badFrees = sys.badFrees
  rings : ∀ index, RingOk ready index
  addr_iff : ∀ index, (ready.dev.vqs index).vringAddr = 0 ↔
    ringPages arch (descr.vrings index).num (descr.vrings index).align = 0
  idx_eq : ∀ index, (ready.dev.vqs index).lastAvailIdx = (sys.dev.vqs index).lastAvailIdx

theorem RingOk.maps_iff (ok : RingOk sys index) :
    sys.maps index = [] ↔ (sys.dev.vqs index).vringAddr = 0 := by
  obtain ⟨zero, none⟩ | ⟨window, one, -, nonzero⟩ := ok
  · exact ⟨fun _ => zero, fun _ => none⟩
  constructor
  · intro none
    rw [none] at one
    cases one
  · exact fun zero => absurd zero nonzero

theorem initVrings_eq (descr : TipcVdevDescr) (spots : Fin tipcVqNum → Option (Spot arch))
    (sys : System arch) :
    initVrings descr spots [] [tipcVqTx, tipcVqRx] sys =
      let tx := initVring (sys.dev.vqs tipcVqTx) (descr.vrings tipcVqTx) (spots tipcVqTx)
      let rx := initVring (sys.dev.vqs tipcVqRx) (descr.vrings tipcVqRx) (spots tipcVqRx)
      if tx.ret ≠ noError then (tx.ret, sys.initRing tipcVqTx tx)
      else if rx.ret ≠ noError then
        (rx.ret, vqueueDestroy ((sys.initRing tipcVqTx tx).initRing tipcVqRx rx) tipcVqTx)
      else (noError, (sys.initRing tipcVqTx tx).initRing tipcVqRx rx) := by
  have other (result : VqueueInit arch) :
      (sys.initRing tipcVqTx result).dev.vqs tipcVqRx = sys.dev.vqs tipcVqRx :=
    update_of_ne rx_ne_tx result.vq sys.dev.vqs
  simp [initVrings, other]

theorem initRing_vq (sys : System arch) (index : Fin tipcVqNum) (result : VqueueInit arch) :
    (sys.initRing index result).dev.vqs index = result.vq := by
  change update sys.dev.vqs index result.vq index = result.vq
  rw [update_self]

theorem initRing_ringOk (sys : System arch) {result : VqueueInit arch}
    (started : RingStarted (sys.dev.vqs index) vring result) (empty : sys.maps index = []) :
    RingOk (sys.initRing index result) index ∧
      (((sys.initRing index result).dev.vqs index).vringAddr = 0 ↔
        ringPages arch vring.num vring.align = 0) := by
  have maps : (sys.initRing index result).maps index = result.mapping.toList := by
    change update sys.maps index (result.mapping.toList ++ sys.maps index) index = _
    rw [update_self, empty, List.append_nil]
  unfold RingOk
  rw [initRing_vq, maps]
  obtain ⟨pages, unmapped, zero⟩ | ⟨pages, window, mapped, base, nonzero⟩ := started.mapping
  · rw [unmapped]
    exact ⟨.inl ⟨zero, rfl⟩, ⟨fun _ => pages, fun _ => zero⟩⟩
  · rw [mapped]
    exact ⟨.inr ⟨window, rfl, base, nonzero⟩,
      ⟨fun zero => absurd zero nonzero, fun zero => absurd zero pages⟩⟩

theorem initRing_other (sys : System arch) (ne : other ≠ index) (result : VqueueInit arch) :
    (sys.initRing index result).dev.vqs other = sys.dev.vqs other ∧
      (sys.initRing index result).maps other = sys.maps other :=
  ⟨update_of_ne ne _ _, update_of_ne ne _ _⟩

theorem readied_of_started {descr : TipcVdevDescr} {tx rx : VqueueInit arch}
    (empty : ∀ index, sys.maps index = [])
    (txStarted : RingStarted (sys.dev.vqs tipcVqTx) (descr.vrings tipcVqTx) tx)
    (rxStarted : RingStarted (sys.dev.vqs tipcVqRx) (descr.vrings tipcVqRx) rx) :
    Readied sys descr ((sys.initRing tipcVqTx tx).initRing tipcVqRx rx) := by
  have txRing := initRing_ringOk sys txStarted (empty tipcVqTx)
  have before := initRing_other sys rx_ne_tx tx
  have rxRing := initRing_ringOk _ (before.1.symm ▸ rxStarted)
    (before.2.trans (empty tipcVqRx))
  have after := initRing_other (sys.initRing tipcVqTx tx) rx_ne_tx.symm rx
  refine ⟨rfl, rfl, rfl, ?_, fun index => ?_, fun index => ?_, fun index => ?_⟩
  · change sys.badFrees + tx.freed.toNat + rx.freed.toNat = sys.badFrees
    rw [txStarted.not_freed, rxStarted.not_freed]
    rfl
  · obtain rfl | rfl := vq_cases index
    · unfold RingOk
      exact txRing.1
    · exact rxRing.1
  · obtain rfl | rfl := vq_cases index
    · exact txRing.2
    · exact rxRing.2
  · obtain rfl | rfl := vq_cases index
    · exact txStarted.idx_kept
    · exact rxStarted.idx_kept

/-- Either a mapping fails and memory is freed that was not allocated, or both rings are
there. -/
theorem initVrings_cases (descr : TipcVdevDescr) (answers : ProbeAnswers arch)
    (empty : ∀ index, sys.maps index = []) :
    ((∃ index, ¬ MapsRing descr answers index) ∧
        (initVrings descr answers.spots [] [tipcVqTx, tipcVqRx] sys).1 ≠ noError ∧
        (initVrings descr answers.spots [] [tipcVqTx, tipcVqRx] sys).2.badFrees =
          sys.badFrees + 1) ∨
      ((∀ index, MapsRing descr answers index) ∧ ∃ ready,
        initVrings descr answers.spots [] [tipcVqTx, tipcVqRx] sys = (noError, ready) ∧
        Readied sys descr ready) := by
  have txIff := initVring_ret_iff (sys.dev.vqs tipcVqTx) descr answers tipcVqTx
  have rxIff := initVring_ret_iff (sys.dev.vqs tipcVqRx) descr answers tipcVqRx
  rw [initVrings_eq]
  by_cases txOk :
    (initVring (sys.dev.vqs tipcVqTx) (descr.vrings tipcVqTx) (answers.spots tipcVqTx)).ret =
      noError
  · rw [if_neg (not_not.mpr txOk)]
    have txStarted := initVring_started txOk
    by_cases rxOk :
      (initVring (sys.dev.vqs tipcVqRx) (descr.vrings tipcVqRx) (answers.spots tipcVqRx)).ret =
        noError
    · rw [if_neg (not_not.mpr rxOk)]
      refine .inr
        ⟨fun index => ?_, _, rfl, readied_of_started empty txStarted (initVring_started rxOk)⟩
      obtain rfl | rfl := vq_cases index
      · exact txIff.mp txOk
      · exact rxIff.mp rxOk
    · rw [if_pos rxOk]
      refine .inl ⟨⟨tipcVqRx, fun mapped => rxOk (rxIff.mpr mapped)⟩, rxOk, ?_⟩
      change sys.badFrees + Bool.toNat _ + Bool.toNat _ = sys.badFrees + 1
      rw [txStarted.not_freed, initVring_eq_of_fails rxOk]
      rfl
  · rw [if_pos txOk]
    refine .inl ⟨⟨tipcVqTx, fun mapped => txOk (txIff.mpr mapped)⟩, txOk, ?_⟩
    change sys.badFrees + Bool.toNat _ = sys.badFrees + 1
    rw [initVring_eq_of_fails txOk]
    rfl

end Rings

/-! ### One probe -/

section Probes

variable {arch : Arch} {sys : System arch} {descr : TipcVdevDescr} {answers : ProbeAnswers arch}

structure Inv (sys : System arch) : Prop where
  idle : sys.dev.state = .reset → sys.rxThreads = 0 ∧ sys.txThreads = 0 ∧
    ∀ index, sys.maps index = []
  busy : sys.dev.state = .active → sys.rxThreads = sys.dev.rxThread.toNat ∧
    sys.txThreads = sys.dev.txThread.toNat ∧ (∀ index, RingOk sys index) ∧ sys.maps tipcVqTx ≠ []
  frees : sys.badFrees = 0

theorem Inv.consistent (inv : Inv sys) : Consistent sys := by
  cases state : sys.dev.state with
  | reset =>
    obtain ⟨rx, tx, maps⟩ := inv.idle state
    refine ⟨⟨fun _ => ⟨rx, tx, maps⟩, fun _ => state⟩, ?_, ?_, fun index => ?_, inv.frees⟩
    · rw [rx]
      exact Nat.zero_le _
    · rw [tx]
      exact Nat.zero_le _
    · rw [maps index]
      exact Nat.zero_le _
  | active =>
    obtain ⟨rx, tx, rings, mapped⟩ := inv.busy state
    refine ⟨⟨fun reset => ?_, fun none => absurd (none.2.2 tipcVqTx) mapped⟩, ?_, ?_, fun index =>
      ?_, inv.frees⟩
    · rw [state] at reset
      cases reset
    · rw [rx]
      exact Bool.toNat_le _
    · rw [tx]
      exact Bool.toNat_le _
    · exact (rings index).length_le

variable {ready : System arch}

section

variable (reset : sys.dev.state = .reset) (valid : validateDescr descr = noError)

include reset valid

theorem tipcDevProbe_ready
    (rings : initVrings descr answers.spots [] [tipcVqTx, tipcVqRx] sys = (noError, ready)) :
    tipcDevProbe sys descr answers =
      if (goOnline (createThreads ready answers) answers).1 = noError then
        ⟨(goOnline (createThreads ready answers) answers).1,
          { (goOnline (createThreads ready answers) answers).2 with
            dev :=
              { (goOnline (createThreads ready answers) answers).2.dev with state := .active } },
          fun index => (ready.dev.vqs index).lastAvailIdx⟩
      else ⟨(goOnline (createThreads ready answers) answers).1,
        (goOnline (createThreads ready answers) answers).2, fun index =>
          (ready.dev.vqs index).lastAvailIdx⟩ := by
  unfold tipcDevProbe
  rw [if_neg (not_not.mpr reset), if_neg (not_not.mpr valid), rings]
  dsimp only
  rw [if_neg (not_not.mpr rfl)]

theorem tipcDevProbe_failed
    (failed : (initVrings descr answers.spots [] [tipcVqTx, tipcVqRx] sys).1 ≠ noError) :
    (tipcDevProbe sys descr answers).sys =
      (initVrings descr answers.spots [] [tipcVqTx, tipcVqRx] sys).2 := by
  unfold tipcDevProbe
  rw [if_neg (not_not.mpr reset), if_neg (not_not.mpr valid)]
  dsimp only
  rw [if_pos failed]

end

/-- Without a tx ring the device stays in reset, and it must not have acquired anything. -/
theorem probe_iff_closed (inv : Inv sys) (reset : sys.dev.state = .reset)
    (mapped : ∀ index, MapsRing descr answers index) (readied : Readied sys descr ready)
    (closed : (ready.dev.vqs tipcVqTx).vringAddr = 0) :
    (ProbeSound sys answers.fresh
        ⟨errChannelClosed, createThreads ready answers, fun index =>
          (ready.dev.vqs index).lastAvailIdx⟩ ↔
      GoodStart sys descr answers) ∧
      (GoodStart sys descr answers → Inv (createThreads ready answers)) := by
  obtain ⟨rx, tx, empty⟩ := inv.idle reset
  have rxThreads : (createThreads ready answers).rxThreads = answers.rxThread.toNat := by
    change ready.rxThreads + _ = _
    rw [readied.rx_eq, rx, Nat.zero_add]
  have txThreads : (createThreads ready answers).txThreads = answers.txThread.toNat := by
    change ready.txThreads + _ = _
    rw [readied.tx_eq, tx, Nat.zero_add]
  have nothing (good : GoodStart sys descr answers) : answers.rxThread.toNat = 0 ∧
    answers.txThread.toNat = 0 ∧
      ∀ index, ready.maps index = [] := by
    obtain ⟨-, ⟨-, nonempty, -⟩ | ⟨pages, noRx, noTx⟩⟩ := good
    · exact absurd ((readied.addr_iff tipcVqTx).mp closed) nonempty
    · rw [noRx, noTx]
      exact ⟨rfl, rfl, fun index => (readied.rings index).maps_iff.mpr
        ((readied.addr_iff index).mpr (pages index))⟩
  refine ⟨⟨fun sound => ?_, fun good => ?_⟩, fun good => ?_⟩
  · obtain ⟨sameRx, sameTx, sameMaps⟩ := sound.released (show errChannelClosed ≠ noError by decide)
    refine ⟨mapped, .inr ⟨fun index => ?_, ?_, ?_⟩⟩
    · apply (readied.addr_iff index).mp
      apply (readied.rings index).maps_iff.mp
      exact (congrFun sameMaps index).trans (empty index)
    · rw [rx, rxThreads] at sameRx
      exact Bool.toNat_eq_zero.mp sameRx
    · rw [tx, txThreads] at sameTx
      exact Bool.toNat_eq_zero.mp sameTx
  · obtain ⟨noRx, noTx, noMaps⟩ := nothing good
    refine ⟨fun _ => ⟨?_, ?_, ?_⟩, readied.frees_eq, fun ok => by cases ok⟩
    · rw [rxThreads, rx, noRx]
    · rw [txThreads, tx, noTx]
    · funext index
      exact (noMaps index).trans (empty index).symm
  · obtain ⟨noRx, noTx, noMaps⟩ := nothing good
    refine ⟨fun _ => ⟨rxThreads.trans noRx, txThreads.trans noTx, noMaps⟩, fun active => ?_, ?_⟩
    · change ready.dev.state = .active at active
      rw [readied.state_eq, reset] at active
      cases active
    · exact readied.frees_eq.trans inv.frees

def onlineSys (ready : System arch) (answers : ProbeAnswers arch) : System arch :=
  (createThreads ready answers).setVq tipcVqTx
    { (createThreads ready answers).dev.vqs tipcVqTx with lastAvailIdx := answers.txIdx }

theorem onlineSys_vringAddr (ready : System arch) (answers : ProbeAnswers arch)
    (index : Fin tipcVqNum) :
    ((onlineSys ready answers).dev.vqs index).vringAddr = (ready.dev.vqs index).vringAddr := by
  change (update ready.dev.vqs tipcVqTx { ready.dev.vqs tipcVqTx with
    lastAvailIdx := answers.txIdx }
    index).vringAddr = _
  obtain rfl | rfl := vq_cases index
  · rw [update_self]
  · rw [update_of_ne rx_ne_tx]

theorem inv_active (inv : Inv sys) (reset : sys.dev.state = .reset)
    (readied : Readied sys descr ready) (opened : (ready.dev.vqs tipcVqTx).vringAddr ≠ 0) :
    Inv { onlineSys ready answers with
      dev := { (onlineSys ready answers).dev with state := .active } } := by
  obtain ⟨rx, tx, -⟩ := inv.idle reset
  refine ⟨fun contra => (by cases contra), fun _ => ⟨?_, ?_, fun index => ?_, ?_⟩, ?_⟩
  · change ready.rxThreads + _ = _
    rw [readied.rx_eq, rx, Nat.zero_add]
    rfl
  · change ready.txThreads + _ = _
    rw [readied.tx_eq, tx, Nat.zero_add]
    rfl
  · have ring := readied.rings index
    unfold RingOk at ring ⊢
    rw [onlineSys_vringAddr]
    exact ring
  · exact fun none => opened ((readied.rings tipcVqTx).maps_iff.mp none)
  · exact readied.frees_eq.trans inv.frees

/-- The probe keeps the invariant exactly if the start is a good one. -/
theorem probe_iff (answers : ProbeAnswers arch) (inv : Inv sys) (reset : sys.dev.state = .reset)
    (valid : validateDescr descr = noError) :
    (ProbeSound sys answers.fresh (tipcDevProbe sys descr answers) ↔ GoodStart sys descr answers) ∧
      (GoodStart sys descr answers → Inv (tipcDevProbe sys descr answers).sys) := by
  obtain ⟨-, -, empty⟩ := inv.idle reset
  obtain ⟨⟨index, unmapped⟩, failed, freed⟩ | ⟨mapped, ready, rings, readied⟩ :=
    initVrings_cases descr answers empty
  · have notGood : ¬ GoodStart sys descr answers := fun good => unmapped (good.1 index)
    refine ⟨⟨fun sound => ?_, fun good => absurd good notGood⟩, fun good => absurd good notGood⟩
    have same := sound.freed
    rw [tipcDevProbe_failed reset valid failed, freed] at same
    omega
  rw [tipcDevProbe_ready reset valid rings]
  by_cases closed : (ready.dev.vqs tipcVqTx).vringAddr = 0
  · have online :
        goOnline (createThreads ready answers) answers = (errChannelClosed,
          createThreads ready answers) :=
      if_pos closed
    rw [online, if_neg (show errChannelClosed ≠ noError by decide)]
    exact probe_iff_closed inv reset mapped readied closed
  have online :
      goOnline (createThreads ready answers) answers = (answers.goOnline,
        onlineSys ready answers) :=
    if_neg closed
  have pages := mt (readied.addr_iff tipcVqTx).mpr closed
  rw [online]
  by_cases sent : answers.goOnline = noError
  · rw [if_pos sent]
    refine ⟨⟨fun sound => ?_, fun good => ?_⟩, fun _ => inv_active inv reset readied closed⟩
    · refine ⟨mapped, .inl ⟨sent, pages, fun fresh index => ?_⟩⟩
      rw [← readied.idx_eq]
      exact sound.first_zero sent fresh index
    · obtain ⟨-, ⟨-, -, unused⟩ | ⟨none, -⟩⟩ := good
      · refine ⟨fun failed => absurd sent failed, readied.frees_eq, fun _ fresh index => ?_⟩
        exact (readied.idx_eq index).trans (unused fresh index)
      · exact absurd (none tipcVqTx) pages
  · rw [if_neg sent]
    have notGood : ¬ GoodStart sys descr answers := by
      rintro ⟨-, ⟨ok, -⟩ | ⟨none, -⟩⟩
      · exact sent ok
      · exact pages (none tipcVqTx)
    refine ⟨⟨fun sound => ?_, fun good => absurd good notGood⟩, fun good => absurd good notGood⟩
    obtain ⟨-, -, sameMaps⟩ := sound.released sent
    have unmapped := (congrFun sameMaps tipcVqTx).trans (empty tipcVqTx)
    exact absurd ((readied.rings tipcVqTx).maps_iff.mp unmapped) closed

theorem probe_unchanged (sys : System arch) (answers : ProbeAnswers arch)
    (early : sys.dev.state = .reset → validateDescr descr ≠ noError) :
    (tipcDevProbe sys descr answers).sys = sys ∧
      ProbeSound sys answers.fresh (tipcDevProbe sys descr answers) := by
  unfold tipcDevProbe
  by_cases reset : sys.dev.state = .reset
  · have invalid := early reset
    rw [if_neg (not_not.mpr reset), if_pos invalid]
    exact ⟨rfl, fun _ => ⟨rfl, rfl, rfl⟩, rfl, fun ok => absurd ok invalid⟩
  · rw [if_pos reset]
    exact ⟨rfl, fun _ => ⟨rfl, rfl, rfl⟩, rfl, fun ok => by cases ok⟩

end Probes

/-! ### Runs -/

section Runs

variable {arch : Arch} {sys next : System arch}

theorem tipcDevReset_inv (inv : Inv sys) {joined : Bool}
    (done : tipcDevReset sys joined = some next) : Inv next := by
  unfold tipcDevReset at done
  split at done
  case isTrue reset =>
    cases done
    exact inv
  case isFalse busy =>
    split at done
    case isTrue => cases done
    case isFalse threads =>
      obtain ⟨-, rxThread, txThread⟩ := not_not.mp threads
      have active : sys.dev.state = .active := by
        cases state : sys.dev.state with
        | reset => exact absurd state busy
        | active => rfl
      obtain ⟨rx, tx, rings, -⟩ := inv.busy active
      rw [rxThread] at rx
      rw [txThread] at tx
      cases done
      refine ⟨fun _ => ⟨?_, ?_, fun index => ?_⟩, fun contra => (by cases contra), inv.frees⟩
      · change sys.rxThreads - 1 = 0
        rw [rx]
        rfl
      · change sys.txThreads - 1 = 0
        rw [tx]
        rfl
      · obtain rfl | rfl := vq_cases index
        · exact vqueueDestroy_maps (vqueueDestroy_ringOk rx_ne_tx.symm (rings tipcVqTx))
        · refine (vqueueDestroy_maps_ne rx_ne_tx).trans ?_
          exact vqueueDestroy_maps (rings tipcVqRx)

variable {call : Call arch} {descrSz : Nat}

theorem startProbe_eq {probe : Probe arch} (probed : startProbe sys call = some probe) :
    ∃ pa size descr memory spot answers, call = .start pa size descr memory spot answers ∧
      probe = tipcDevProbe { sys with bus := .activating } descr answers := by
  cases call with
  | start pa size descr memory spot answers =>
    refine ⟨pa, size, descr, memory, spot, answers, rfl, ?_⟩
    simp only [startProbe] at probed
    split_ifs at probed
    exact (Option.some.inj probed).symm
  | _ => cases probed

theorem boot_inv : Inv (System.boot : System arch) :=
  ⟨fun _ => ⟨rfl, rfl, fun _ => rfl⟩, fun contra => (by cases contra), rfl⟩

theorem work_inv (inv : Inv sys) (index : Fin tipcVqNum) (idx : BitVec 16) :
    Inv (sys.setVq index { sys.dev.vqs index with lastAvailIdx := idx }) := by
  refine ⟨inv.idle, fun active => ?_, inv.frees⟩
  obtain ⟨rx, tx, rings, mapped⟩ := inv.busy active
  refine ⟨rx, tx, fun other => ?_, mapped⟩
  have addr :
      ((sys.setVq index { sys.dev.vqs index with lastAvailIdx := idx }).dev.vqs other).vringAddr =
        (sys.dev.vqs other).vringAddr := by
    change (update sys.dev.vqs index { sys.dev.vqs index with
      lastAvailIdx := idx } other).vringAddr = _
    by_cases same : other = index
    · rw [same, update_self]
    · rw [update_of_ne same]
  unfold RingOk
  rw [addr]
  exact rings other

/-- A start: the probe is sound exactly if the call is favourable, which keeps the invariant. -/
theorem start_iff (inv : Inv sys) {descr : TipcVdevDescr} {answers : ProbeAnswers arch}
    {probe : Probe arch}
    (probed : probe = tipcDevProbe { sys with bus := .activating } descr answers) :
    (ProbeSound sys answers.fresh probe ↔
        (sys.dev.state = .reset → validateDescr descr = noError → GoodStart sys descr answers)) ∧
      ((sys.dev.state = .reset → validateDescr descr = noError → GoodStart sys descr answers) →
        Inv probe.sys) := by
  subst probed
  have start : Inv { sys with bus := .activating } := ⟨inv.idle, inv.busy, inv.frees⟩
  by_cases early : sys.dev.state = .reset → validateDescr descr ≠ noError
  · obtain ⟨same, sound⟩ := probe_unchanged { sys with bus := .activating } answers early
    have kept : Inv (tipcDevProbe { sys with bus := .activating } descr answers).sys := by
      rw [same]
      exact start
    refine ⟨⟨fun _ reset valid => absurd valid (early reset), fun _ => ?_⟩, fun _ => kept⟩
    exact ⟨sound.released, sound.freed, sound.first_zero⟩
  · push Not at early
    obtain ⟨reset, valid⟩ := early
    obtain ⟨iff, keeps⟩ := probe_iff answers start reset valid
    refine ⟨⟨fun sound _ _ => ?_, fun good => ?_⟩, fun good => keeps (good reset valid)⟩
    · exact iff.mp ⟨sound.released, sound.freed, sound.first_zero⟩
    · have sound := iff.mpr (good reset valid)
      exact ⟨sound.released, sound.freed, sound.first_zero⟩

theorem iff_of_no_probe (call : Call arch) (favourable : Favourable sys call)
    (none : startProbe sys call = none) (inv : Inv next) :
    ((Consistent next ∧ ∀ probe, startProbe sys call = some probe →
      ProbeSound sys call.fresh probe) ↔ Favourable sys call) ∧
      (Favourable sys call → Inv next) := by
  refine ⟨⟨fun _ => favourable, fun _ => ⟨inv.consistent, fun probe probed => ?_⟩⟩, fun _ => inv⟩
  rw [none] at probed
  cases probed

theorem Inv.with_bus (inv : Inv sys) (bus : BusState) : Inv { sys with bus := bus } :=
  ⟨inv.idle, inv.busy, inv.frees⟩

theorem step_iff (inv : Inv sys) (stepped : step descrSz sys call = some next) :
    ((Consistent next ∧ ∀ probe, startProbe sys call = some probe →
      ProbeSound sys call.fresh probe) ↔ Favourable sys call) ∧
      (Favourable sys call → Inv next) := by
  cases call with
  | getDescription =>
    apply iff_of_no_probe .getDescription trivial rfl
    simp only [step, Option.some.injEq] at stepped
    subst stepped
    unfold finalizeVdevRegistery
    split
    · exact ⟨inv.idle, inv.busy, inv.frees⟩
    · exact inv
  | start pa size descr memory spot answers =>
    cases probed : startProbe sys (.start pa size descr memory spot answers) with
    | none =>
      simp only [step, probed, Option.some.injEq] at stepped
      subst stepped
      rw [← probed]
      refine iff_of_no_probe _ (fun contra => ?_) probed inv
      rw [probed] at contra
      cases contra
    | some probe =>
      simp only [step, probed, Option.some.injEq] at stepped
      subst stepped
      obtain ⟨_, _, _, _, _, _, ⟨⟩, made⟩ := startProbe_eq probed
      obtain ⟨iff, keeps⟩ := start_iff inv made
      have favourable : Favourable sys (.start pa size descr memory spot answers) ↔
          (sys.dev.state = .reset → validateDescr descr = noError →
            GoodStart sys descr answers) := by
        exact ⟨fun all => all (by rw [probed]; rfl), fun all _ => all⟩
      rw [favourable]
      refine ⟨⟨fun sound => iff.mp (sound.2 probe rfl), fun good => ?_⟩, fun good =>
        (keeps good).with_bus _⟩
      refine ⟨((keeps good).with_bus _).consistent, ?_⟩
      rintro _ ⟨⟩
      exact iff.mpr good
  | stop joined =>
    apply iff_of_no_probe (.stop joined) trivial rfl
    simp only [step] at stepped
    split at stepped
    · cases stepped
      exact inv
    · obtain ⟨stopped, done, same⟩ := Option.map_eq_some_iff.mp stepped
      subst same
      exact (tipcDevReset_inv (inv.with_bus _) done).with_bus _
  | deviceReset id joined =>
    apply iff_of_no_probe (.deviceReset id joined) trivial rfl
    simp only [step] at stepped
    split_ifs at stepped
    · cases stepped
      exact inv
    · cases stepped
      exact inv
    · exact tipcDevReset_inv inv stepped
  | work index idx =>
    apply iff_of_no_probe (.work index idx) trivial rfl
    simp only [step] at stepped
    split_ifs at stepped
    · cases stepped
      exact inv
    · cases stepped
      exact work_inv inv index idx

theorem Reach.inv (reached : Reach descrSz sys) : Inv sys := by
  induction reached with
  | boot => exact boot_inv
  | step _ favourable stepped ih => exact (step_iff ih stepped).2 favourable

/-- In runs of favourable calls the device holds what its state says, and the first call
that is not favourable breaks that. -/
theorem lifecycle_iff {descrSz : Nat} {call : Call arch} (reached : Reach descrSz sys)
    (stepped : step descrSz sys call = some next) :
    Consistent sys ∧
      ((Consistent next ∧ ∀ probe, startProbe sys call = some probe →
        ProbeSound sys call.fresh probe) ↔ Favourable sys call) :=
  ⟨reached.inv.consistent, (step_iff reached.inv stepped).1⟩

end Runs

/-- `sizeof(struct tipc_vdev_descr)`. -/
def tipcVdevDescrSize : Nat := 108

def secondPage : Spot arm := ⟨8192, by decide, by decide⟩

/-- Places for fresh rings, and threads; the first tx buffer is used for GO_ONLINE. -/
def roomy (goOnline : Int) : ProbeAnswers arm :=
  ⟨fun index => some (if index = tipcVqTx then firstPage else secondPage), true, true,
    goOnline, 1, true⟩

def smallStart (goOnline : Int) : Call arm :=
  .start 4096 128 (descrOf 4 4096) true (some firstPage) (roomy goOnline)

def described : System arm := finalizeVdevRegistery System.boot tipcVdevDescrSize

def started : System arm :=
  { (tipcDevProbe { described with bus := .activating } (descrOf 4 4096)
    (roomy noError)).sys with bus := .active }

theorem reach_described : Reach tipcVdevDescrSize described :=
  @Reach.step _ tipcVdevDescrSize System.boot described .getDescription Reach.boot trivial rfl

theorem lifecycle_iff_started :
    Consistent described ∧
      ((Consistent started ∧ ∀ probe, startProbe described (smallStart noError) = some probe →
        ProbeSound described (smallStart noError).fresh probe) ↔
        Favourable described (smallStart noError)) :=
  lifecycle_iff reach_described rfl

/-- When GO_ONLINE cannot be sent, the device is in reset with its threads and mappings, and
after a stop the next start creates everything a second time. -/
theorem start_leaks :
    ((step tipcVdevDescrSize described (smallStart errTooBig)).map fun sys =>
        (sys.dev.state, sys.rxThreads, sys.txThreads, (sys.maps tipcVqTx).length,
          (sys.maps tipcVqRx).length)) =
      some (.reset, 1, 1, 1, 1) ∧
    (([smallStart errTooBig, .stop true, smallStart noError].foldlM (step tipcVdevDescrSize)
      described).map fun sys =>
        (sys.dev.state, sys.rxThreads, sys.txThreads, (sys.maps tipcVqTx).length,
          (sys.maps tipcVqRx).length)) =
      some (.active, 2, 2, 2, 2) := by
  decide +kernel

end Trusty.Virtio

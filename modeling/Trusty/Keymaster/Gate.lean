import Trusty.Keymaster.Commands
import Trusty.Lib.Transcript

/-!
What is executed before and after the keymaster was configured, and the root of trust
that it then has.
-/

namespace Trusty.Keymaster

open Lib Lib.Transcript Kernel List

/-! ### The root of trust is set once -/

/-- The root of trust stays, or it is set. -/
def RootOfTrust.SetOnce (before after : RootOfTrust) : Prop :=
  after = before ∨ before.set = false ∧ after.set = true

variable {before after : RootOfTrust}

theorem RootOfTrust.SetOnce.of_set (once : SetOnce before after) (set : before.set = true) :
    after = before := by
  obtain same | ⟨unset, _⟩ := once
  · exact same
  · rw [set] at unset
    cases unset

theorem RootOfTrust.SetOnce.set (once : SetOnce before after) (set : before.set = true) :
    after.set = true := by
  rw [once.of_set set]
  exact set

theorem RootOfTrust.SetOnce.trans {between : RootOfTrust} (first : SetOnce before between)
    (second : SetOnce between after) : SetOnce before after := by
  obtain same | ⟨unset, set⟩ := first
  · exact same ▸ second
  · exact .inr ⟨unset, second.set set⟩

section Device

variable {device : TrustyKeymaster}

theorem setOnce_setBootParams (request : SetBootParamsRequest) (trust : RootOfTrust) :
    RootOfTrust.SetOnce trust (setBootParams request trust).2 := by
  unfold setBootParams
  by_cases set : trust.set = true
  · rw [if_pos set]
    exact .inl rfl
  · refine .inr ⟨Bool.eq_false_iff.mpr set, ?_⟩
    split_ifs <;> rfl

theorem set_setBootParams (request : SetBootParamsRequest) (trust : RootOfTrust) :
    (setBootParams request trust).2.set = true := by
  unfold setBootParams
  split_ifs with set <;> first | exact set | rfl

section

variable (platform : Platform) (answers : BootAnswers)

theorem setOnce_kmGetBoot :
    RootOfTrust.SetOnce device.rootOfTrust (kmGetBoot platform answers device).rootOfTrust := by
  unfold kmGetBoot
  cases bootRequest platform answers with
  | none => exact .inl rfl
  | some request => exact setOnce_setBootParams request device.rootOfTrust

theorem configureError_kmGetBoot :
    (kmGetBoot platform answers device).configureError = device.configureError := by
  unfold kmGetBoot
  cases bootRequest platform answers <;> rfl

/-- The boot parameters are there: no call to the service fails, and the response is one. -/
def BootAnswers.Delivers : Prop :=
  platform = .armv7 ∨
    0 ≤ answers.connect ∧ answers.malloc = true ∧ answers.sendMsg = 4 ∧ answers.wait = noError ∧
      answers.getMsg = noError ∧ answers.len = 52 ∧ answers.readMsg = 52 ∧
      answers.putMsg = noError ∧
      answers.cmd = getVerifiedBoot ||| respFlag ||| doneFlag

theorem kmSendReq_eq_noError (answers : BootAnswers) :
    kmSendReq answers = noError ↔ answers.sendMsg = 4 := by
  unfold kmSendReq
  split_ifs with negative short
  · unfold noError
    omega
  · exact ⟨fun done => absurd done (by decide), fun whole => absurd whole short⟩
  · exact ⟨fun _ => not_not.mp short, fun _ => rfl⟩

theorem kmAwaitResponse_eq_noError (answers : BootAnswers) :
    kmAwaitResponse answers = noError ↔ answers.wait = noError ∧ answers.getMsg = noError := by
  unfold kmAwaitResponse
  split_ifs with failed
  · exact ⟨fun done => absurd done failed, fun done => absurd done.1 failed⟩
  · exact (and_iff_right (not_not.mp failed)).symm

theorem kmReadResponse_eq_noError (answers : BootAnswers) :
    kmReadResponse answers = noError ↔ answers.readMsg = 52 ∧ answers.putMsg = noError := by
  unfold kmReadResponse
  split_ifs with negative short
  · unfold noError
    omega
  · exact ⟨fun done => absurd done (by decide), fun read => absurd read.1 short⟩
  · exact (and_iff_right (not_not.mp short)).symm

theorem isSome_bootRequest_iff :
    (bootRequest platform answers).isSome ↔ answers.Delivers platform := by
  unfold BootAnswers.Delivers
  cases platform with
  | armv7 => exact ⟨fun _ => .inl rfl, fun _ => rfl⟩
  | armv8 =>
    unfold bootRequest
    have size : bootRspSize = 52 := rfl
    simp only [ne_eq, kmSendReq_eq_noError, kmAwaitResponse_eq_noError,
      kmReadResponse_eq_noError, size]
    split_ifs <;> simp only [Option.isSome_none, Option.isSome_some] <;> grind

theorem set_kmGetBoot_iff : (kmGetBoot platform answers device).rootOfTrust.set = true ↔
      device.rootOfTrust.set = true ∨ answers.Delivers platform := by
  rw [← isSome_bootRequest_iff]
  unfold kmGetBoot
  cases bootRequest platform answers with
  | none => exact ⟨Or.inl, fun set => set.resolve_right (by rintro ⟨⟩)⟩
  | some request => exact ⟨fun _ => .inr rfl, fun _ => set_setBootParams request device.rootOfTrust⟩

end

theorem setSystemVersion_ok (request : ConfigureRequest) :
    (device.setSystemVersion request).1 = .ok ∧
    (device.setSystemVersion request).2.rootOfTrust = device.rootOfTrust ∧
      (device.setSystemVersion request).2.configureError = device.configureError := by
  unfold TrustyKeymaster.setSystemVersion
  split_ifs <;> exact ⟨rfl, rfl, rfl⟩

end Device

/-! ### One message -/

/-- What a command needs to be executed on a port. -/
def MayExecute (port : Port) (device : TrustyKeymaster) (command : KmCommand) : Prop :=
  match port with
  | .nonSecure =>
    command = .getVersion ∨ device.configureCalled = false ∧
      cmdAllowedBeforeConfigure command.code = true ∨ device.configureError = .ok ∧
      cmdIsFromBootloader command.code = false
  | .secure => command = .getAuthTokenKey ∨ cmdIsFromBootloader command.code = true

structure Serves (port : Port) (device : TrustyKeymaster) (dispatched : Dispatched) : Prop where
  setOnce : RootOfTrust.SetOnce device.rootOfTrust dispatched.device.rootOfTrust
  configured : dispatched.device.configureError = device.configureError ∧
      (∀ err, dispatched.executed ≠ some (.configure, err)) ∨
    dispatched.device.configureError = .ok ∧ dispatched.executed = some (.configure, .ok)
  allowed : ∀ command err, dispatched.executed = some (command, err) →
    MayExecute port device command

section Steps

variable {device : TrustyKeymaster}

theorem not_mayExecute_configure : ¬ MayExecute .secure device .configure :=
  show ¬ (KmCommand.configure = .getAuthTokenKey ∨
    cmdIsFromBootloader KmCommand.configure.code = true) by decide

variable {command : KmCommand} {arch : Arch}

theorem checkAllowed_of_ofCode {cmd : BitVec 32} (found : KmCommand.ofCode cmd = some command)
    (passes : checkAllowed device cmd = none) : MayExecute .nonSecure device command := by
  have code := KmCommand.code_of_ofCode found
  subst code
  unfold checkAllowed at passes
  split_ifs at passes with version uncalled early failed bootloader
  · rw [version] at found
    exact .inl (Option.some.inj (found.symm.trans rfl))
  · exact .inr (.inl ⟨uncalled, early⟩)
  · exact .inr (.inr ⟨not_not.mp failed, Bool.eq_false_iff.mpr bootloader⟩)

theorem serves_doDispatch {α : Type} {port : Port} {request : Option α}
    {operation : α → TrustyKeymaster → KmError × TrustyKeymaster} {newOut : Bool}
    {now : TrustyKeymaster} (mayExecute : MayExecute port device command)
    (before : RootOfTrust.SetOnce device.rootOfTrust now.rootOfTrust)
    (same : now.configureError = device.configureError)
    (keeps :
      ∀ request, RootOfTrust.SetOnce device.rootOfTrust (operation request now).2.rootOfTrust ∧
      (operation request now).2.configureError = now.configureError)
    (succeeds : command = .configure → ∀ request, (operation request now).1 = .ok) :
    Serves port device (doDispatch command request operation newOut now) := by
  unfold doDispatch
  cases request with
  | none => exact ⟨before, .inl ⟨same, by rintro err ⟨⟩⟩, by rintro command err ⟨⟩⟩
  | some request =>
    obtain ⟨setOnce, kept⟩ := keeps request
    by_cases configures : command = .configure
    · have ok := succeeds configures request
      simp only [if_pos configures, ok]
      exact ⟨setOnce, .inr ⟨rfl, by rw [configures]⟩, by rintro _ _ ⟨⟩; exact mayExecute⟩
    · simp only [if_neg configures]
      refine ⟨setOnce, .inl ⟨kept.trans same, ?_⟩, by rintro _ _ ⟨⟩; exact mayExecute⟩
      rintro err ⟨⟩
      exact configures rfl

theorem serves_dispatchCommand (platform : Platform) (payload : List Byte) (given : Surroundings)
    (mayExecute : MayExecute .nonSecure device command) :
    Serves .nonSecure device (dispatchCommand platform device command payload given) := by
  have unchanged : ∀ request, RootOfTrust.SetOnce device.rootOfTrust
      (otherOperation given.error request device).2.rootOfTrust ∧
      (otherOperation given.error request device).2.configureError = device.configureError :=
    fun _ => ⟨.inl rfl, rfl⟩
  unfold dispatchCommand
  split
  case h_1 =>
    have booted : RootOfTrust.SetOnce device.rootOfTrust
        (if device.configureCalled then device
          else kmGetBoot platform given.boot device).rootOfTrust := by
      split_ifs
      · exact .inl rfl
      · exact setOnce_kmGetBoot platform given.boot
    refine serves_doDispatch mayExecute booted ?_ (fun request => ⟨?_, ?_⟩)
      (fun _ request => (setSystemVersion_ok request).1)
    · split_ifs
      · rfl
      · exact configureError_kmGetBoot platform given.boot
    · rw [(setSystemVersion_ok request).2.1]
      exact booted
    · exact (setSystemVersion_ok request).2.2
  case h_2 =>
    exact serves_doDispatch mayExecute (.inl rfl) rfl
      (fun request => ⟨setOnce_setBootParams request device.rootOfTrust, rfl⟩) (by rintro ⟨⟩)
  case h_3 => exact serves_doDispatch mayExecute (.inl rfl) rfl unchanged (by rintro ⟨⟩)
  case h_4 =>
    exact serves_doDispatch mayExecute (.inl rfl) rfl unchanged
      (fun configures => absurd configures ‹_›)

theorem serves_nonSecure (platform : Platform) (message : Message) (given : Surroundings) :
    Serves .nonSecure device (keymasterDispatchNonSecure platform device message given) := by
  have refused : ∀ rc, Serves .nonSecure device ⟨rc, none, device⟩ := fun rc =>
    ⟨.inl rfl, .inl ⟨rfl, by rintro err ⟨⟩⟩, by rintro command err ⟨⟩⟩
  unfold keymasterDispatchNonSecure
  split
  case h_1 => exact refused _
  case h_2 passes =>
    split
    case h_1 => exact refused _
    case h_2 command found =>
      exact serves_dispatchCommand platform message.payload given
        (checkAllowed_of_ofCode found passes)

structure ServesSecurely (device : TrustyKeymaster) (state : SecureState) : Prop where
  setOnce : RootOfTrust.SetOnce device.rootOfTrust state.device.rootOfTrust
  configureError : state.device.configureError = device.configureError
  allowed : ∀ command err, state.executed = some (command, err) → MayExecute .secure device command

theorem ServesSecurely.execute {state : SecureState} {err : KmError}
    (so : ServesSecurely device state) (mayExecute : MayExecute .secure device command) :
    ServesSecurely device { state with executed := some (command, err) } where
  setOnce := so.setOnce
  configureError := so.configureError
  allowed := by
    rintro _ _ ⟨⟩
    exact mayExecute

theorem ServesSecurely.answer (message : SecureMessage arch) (op : ServerOp arch)
    (state : SecureState) (so : ServesSecurely device state) :
    ServesSecurely device (message.answer op state).2 := by
  cases op with
  | getAuthTokenKey => exact so.execute (.inl rfl)
  | setBootParams payload =>
    cases parsed : SetBootParamsRequest.deserialize message.allocates payload with
    | none =>
      simp only [SecureMessage.answer, parsed]
      exact so
    | some request =>
      have mayExecute : MayExecute .secure device .setBootParams := .inr rfl
      have now :
          ServesSecurely device { state with device := (state.device.setBootParams request).2 } :=
        ⟨so.setOnce.trans (setOnce_setBootParams request state.device.rootOfTrust),
          so.configureError, so.allowed⟩
      simp only [SecureMessage.answer, parsed]
      exact now.execute mayExecute
  | setAttestationKey algorithm keyData => exact so.execute (.inr rfl)
  | appendAttestationCertChain algorithm certData => exact so.execute (.inr rfl)
  | getMsg => exact so
  | newMsgBuf size => exact so
  | readMsg len => exact so
  | load offset size => exact so
  | newOut size => exact so
  | sendMsg message => exact so
  | wait => exact so

theorem serves_secure (message : SecureMessage arch) :
    Serves .secure device (serveSecure device message) := by
  have start : ServesSecurely device ⟨none, device⟩ := ⟨.inl rfl, rfl, by rintro command err ⟨⟩⟩
  have done := Dialog.run_invariant (ServesSecurely.answer message)
    (keymasterDispatchSecure message.cmd message.payloadSize message.msgBuf) start
  refine ⟨done.setOnce, .inl ⟨done.configureError, fun err configures => ?_⟩, done.allowed⟩
  exact not_mayExecute_configure (done.allowed .configure err configures)

theorem serves_serveMessage (platform : Platform) (input : Input arch) :
    Serves (serveMessage platform device input).1.port device
      (serveMessage platform device input).1.dispatched := by
  cases input with
  | nonSecure connection message given => exact serves_nonSecure platform message given
  | secure connection message => exact serves_secure message

end Steps

/-! ### Every run -/

namespace Event

def Executes (event : Event) (command : KmCommand) : Prop :=
  ∃ err, event.dispatched.executed = some (command, err)

/-- The message was a `CONFIGURE` that was executed and reported the error. -/
def ConfigureReports (event : Event) (err : KmError) : Prop :=
  event.dispatched.executed = some (.configure, err)

def ChangesTrust (event : Event) : Prop :=
  event.dispatched.device.rootOfTrust ≠ event.before.rootOfTrust

end Event

/-- `GET_VERSION`, `CONFIGURE` and the commands of the bootloader. -/
def NeedsNoConfiguration (command : KmCommand) : Prop :=
  command = .getVersion ∨ command = .configure ∨ cmdIsFromBootloader command.code = true

/-- What was done for one message after another respects the configuration, and the root
of trust changes once. -/
structure Gated (events : List Event) : Prop where
  beforeConfigure : ∀ past event future, events = past ++ event :: future →
    (∀ earlier ∈ past, ¬ earlier.ConfigureReports .ok) → ∀ command, event.Executes command →
      NeedsNoConfiguration command ∨ event.port = .secure ∧ command = .getAuthTokenKey
  afterConfigure : ∀ past event future, events = past ++ event :: future →
    (∃ earlier ∈ past, earlier.ConfigureReports .ok) → event.port = .nonSecure →
    ∀ command, event.Executes command →
      cmdIsFromBootloader command.code = false
  afterFailure : ∀ past event future, events = past ++ event :: future →
    (∃ earlier ∈ past, ∃ err, earlier.ConfigureReports err ∧ err ≠ .ok) →
    ∀ command, event.Executes command →
      command = .getVersion
  trustSetOnce : ∀ past event future, events = past ++ event :: future → event.ChangesTrust →
    event.before.rootOfTrust.set = false ∧ event.dispatched.device.rootOfTrust.set = true ∧
      ∀ other ∈ past ++ future, ¬ other.ChangesTrust

/-- Nothing that works with keys is executed for the non-secure world without a root of
trust. -/
def KeysBound (events : List Event) : Prop :=
  ∀ event ∈ events, event.port = .nonSecure → event.before.rootOfTrust.set = false → ∀ command,
    event.Executes command → NeedsNoConfiguration command

section Runs

variable {arch : Arch}

def history (platform : Platform) (inputs : List (Input arch)) : List Event :=
  transcript (serveMessage platform) .initial inputs

def deviceAfter (platform : Platform) (inputs : List (Input arch)) : TrustyKeymaster :=
  final (serveMessage platform) .initial inputs

/-- A `CONFIGURE` that configures the keymaster finds the root of trust set, or the boot
parameters are there. -/
def FindsRootOfTrust (platform : Platform) (device : TrustyKeymaster) (input : Input arch) : Prop :=
  match input with
  | .nonSecure _ message given =>
    message.cmd = KmCommand.configure.code → device.configureCalled = false →
      (ConfigureRequest.deserialize message.payload).isSome →
        device.rootOfTrust.set = true ∨ given.boot.Delivers platform
  | .secure _ _ => True

variable {platform : Platform} {device : TrustyKeymaster} {events : List Event} {input : Input arch}

variable {command : KmCommand} {err : KmError} {message : Message}

theorem needsNoConfiguration_of_allowed (allowed : cmdAllowedBeforeConfigure command.code = true) :
    NeedsNoConfiguration command := by
  unfold NeedsNoConfiguration
  revert allowed
  cases command <;> decide

/-! ### What may be executed -/

namespace MayExecute

variable {port : Port} {command : KmCommand}

theorem of_unconfigured (may : MayExecute port device command)
    (unconfigured : device.configureError = .keymasterNotConfigured) :
    NeedsNoConfiguration command ∨ port = .secure ∧ command = .getAuthTokenKey := by
  cases port with
  | nonSecure =>
    obtain version | ⟨_, allowed⟩ | ⟨ok, _⟩ := may
    · exact .inl (.inl version)
    · exact .inl (needsNoConfiguration_of_allowed allowed)
    · rw [unconfigured] at ok
      cases ok
  | secure =>
    obtain key | bootloader := may
    · exact .inr ⟨rfl, key⟩
    · exact .inl (.inr (.inr bootloader))

section

variable (may : MayExecute .nonSecure device command)

include may

theorem of_configured (configured : device.configureError = .ok) :
    cmdIsFromBootloader command.code = false := by
  obtain rfl | ⟨uncalled, _⟩ | ⟨_, other⟩ := may
  · rfl
  · simp [TrustyKeymaster.configureCalled, configured] at uncalled
  · exact other

theorem of_failed (called : device.configureCalled = true) (failed : device.configureError ≠ .ok) :
    command = .getVersion := by
  obtain version | ⟨uncalled, _⟩ | ⟨ok, _⟩ := may
  · exact version
  · rw [called] at uncalled
    cases uncalled
  · exact absurd ok failed

theorem configured_or : NeedsNoConfiguration command ∨ device.configureError = .ok := by
  obtain version | ⟨_, allowed⟩ | ⟨ok, _⟩ := may
  · exact .inl (.inl version)
  · exact .inl (needsNoConfiguration_of_allowed allowed)
  · exact .inr ok

end

end MayExecute

/-! ### Histories -/

/-- What the events tell about the keymaster. -/
structure Records (events : List Event) (device : TrustyKeymaster) : Prop where
  reports : ∀ event ∈ events, ∀ err, event.ConfigureReports err → err = .ok
  configured : (∃ event ∈ events, event.ConfigureReports .ok) → device.configureError = .ok
  unconfigured : (∀ event ∈ events, ¬ event.ConfigureReports .ok) →
    device.configureError = .keymasterNotConfigured
  trust : device.rootOfTrust.set = false → ∀ event ∈ events, ¬ event.ChangesTrust

theorem records_nil : Records [] TrustyKeymaster.initial where
  reports := by simp
  configured := by simp
  unconfigured _ := rfl
  trust := by simp

theorem Records.snoc {event : Event} (records : Records events device)
    (serves : Serves event.port device event.dispatched) (before : event.before = device) :
    Records (events ++ [event]) event.dispatched.device := by
  have split : ∀ other ∈ events ++ [event], other ∈ events ∨ other = event := fun other member =>
    (mem_append.mp member).imp_right eq_of_mem_singleton
  have earlier : ∀ other ∈ events, other ∈ events ++ [event] := fun other => mem_append_left [event]
  constructor
  case reports =>
    intro other member err reports
    obtain old | rfl := split other member
    · exact records.reports other old err reports
    · obtain ⟨_, never⟩ | ⟨_, ok⟩ := serves.configured
      · exact absurd reports (never err)
      · exact congrArg Prod.snd (Option.some.inj (reports.symm.trans ok))
  case configured =>
    rintro ⟨other, member, reports⟩
    obtain ⟨same, never⟩ | ⟨ok, _⟩ := serves.configured
    · obtain old | rfl := split other member
      · exact same.trans (records.configured ⟨other, old, reports⟩)
      · exact absurd reports (never .ok)
    · exact ok
  case unconfigured =>
    intro none
    obtain ⟨same, _⟩ | ⟨_, ok⟩ := serves.configured
    · exact same.trans (records.unconfigured fun other old => none other (earlier other old))
    · exact absurd ok (none event (mem_append_right events (mem_singleton_self event)))
  case trust =>
    intro unset other member
    obtain same | ⟨_, set⟩ := serves.setOnce
    · obtain old | rfl := split other member
      · exact records.trust (same ▸ unset) other old
      · unfold Event.ChangesTrust
        rw [before, not_not]
        exact same
    · rw [set] at unset
      cases unset

theorem serveMessage_event :
    (serveMessage platform device input).1.before = device ∧
      (serveMessage platform device input).1.dispatched.device =
        (serveMessage platform device input).2 := by
  cases input <;> exact ⟨rfl, rfl⟩

theorem records_history (platform : Platform) (inputs : List (Input arch)) :
    Records (history platform inputs) (deviceAfter platform inputs) := by
  refine Transcript.invariant (fun events device input records => ?_) records_nil inputs
  rw [← serveMessage_event.2]
  exact records.snoc (serves_serveMessage platform input) serveMessage_event.1

/-- The root of trust is set and the events have not changed it. -/
def KeepsTrust (events : List Event) (device : TrustyKeymaster) : Prop :=
  device.rootOfTrust.set = true ∧ ∀ event ∈ events, ¬ event.ChangesTrust

theorem keepsTrust_transcript (set : device.rootOfTrust.set = true) (inputs : List (Input arch)) :
    KeepsTrust (transcript (serveMessage platform) device inputs)
    (final (serveMessage platform) device inputs) := by
  refine Transcript.invariant (fun events device input kept => ?_) ⟨set, by simp⟩ inputs
  have same := (serves_serveMessage platform input).setOnce.of_set kept.1
  rw [← serveMessage_event.2]
  refine ⟨same ▸ kept.1, fun event member => ?_⟩
  obtain old | new := mem_append.mp member
  · exact kept.2 event old
  · unfold Event.ChangesTrust
    rw [eq_of_mem_singleton new, serveMessage_event.1, not_not]
    exact same

/-! ### The gate -/

theorem gated_history (platform : Platform) (inputs : List (Input arch)) :
    Gated (history platform inputs) := by
  constructor
  case beforeConfigure =>
    rintro past event future split none command ⟨err, executed⟩
    obtain ⟨before, input, after, _, rfl, rfl, _⟩ := exists_input_of_transcript_eq split
    exact ((serves_serveMessage platform input).allowed command err executed).of_unconfigured
      ((records_history platform before).unconfigured none)
  case afterConfigure =>
    rintro past event future split some nonSecure command ⟨err, executed⟩
    obtain ⟨before, input, after, _, rfl, rfl, _⟩ := exists_input_of_transcript_eq split
    have may := (serves_serveMessage platform input).allowed command err executed
    rw [nonSecure] at may
    exact may.of_configured ((records_history platform before).configured some)
  case afterFailure =>
    -- in this build no CONFIGURE reports an error
    rintro past event future split ⟨earlier, member, err, reports, failed⟩
    obtain ⟨before, input, after, _, rfl, _, _⟩ := exists_input_of_transcript_eq split
    exact absurd ((records_history platform before).reports earlier member err reports) failed
  case trustSetOnce =>
    intro past event future split changes
    obtain ⟨before, input, after, _, rfl, rfl, rfl⟩ := exists_input_of_transcript_eq split
    obtain same | ⟨unset, set⟩ :=
      (@serves_serveMessage (deviceAfter platform before) arch platform input).setOnce
    · refine absurd (same.trans ?_) changes
      exact congrArg TrustyKeymaster.rootOfTrust serveMessage_event.1.symm
    refine ⟨?_, set, fun other member => ?_⟩
    · rw [serveMessage_event.1]
      exact unset
    · obtain earlier | later := mem_append.mp member
      · exact (records_history platform before).trust unset other earlier
      · exact (keepsTrust_transcript (serveMessage_event.2 ▸ set) after).2 other later

/-! ### Keys and the root of trust -/

theorem executed_doDispatch {α : Type} {other : KmCommand} {request : Option α}
    {operation : α → TrustyKeymaster → KmError × TrustyKeymaster} {newOut : Bool}
    (executed : (doDispatch command request operation newOut device).executed = some (other, err)) :
    other = command ∧ request.isSome := by
  cases request with
  | none => cases executed
  | some request => exact ⟨(congrArg Prod.fst (Option.some.inj executed)).symm, rfl⟩

theorem executed_configure {given : Surroundings}
    (executed : (keymasterDispatchNonSecure platform device message given).executed = some
      (.configure, err)) :
    message.cmd = KmCommand.configure.code ∧
    (ConfigureRequest.deserialize message.payload).isSome := by
  unfold keymasterDispatchNonSecure at executed
  split at executed
  case h_1 => cases executed
  case h_2 =>
    split at executed
    case h_1 => cases executed
    case h_2 command found =>
      rw [← KmCommand.code_of_ofCode found]
      unfold dispatchCommand at executed
      split at executed
      case h_1 => exact ⟨rfl, (executed_doDispatch executed).2⟩
      case h_2 => exact absurd (executed_doDispatch executed).1 (by decide)
      case h_3 => exact absurd (executed_doDispatch executed).1 (by decide)
      case h_4 other _ _ => exact absurd (executed_doDispatch executed).1.symm other

/-- The first `CONFIGURE` leaves the root of trust that it finds or gets. -/
theorem dispatch_configure (platform : Platform) (given : Surroundings) {request : ConfigureRequest}
    (configures : message.cmd = KmCommand.configure.code)
    (uncalled : device.configureCalled = false)
    (parsed : ConfigureRequest.deserialize message.payload = some request) :
    (keymasterDispatchNonSecure platform device message given).device.configureError = .ok ∧
      (keymasterDispatchNonSecure platform device message given).device.rootOfTrust =
        (kmGetBoot platform given.boot device).rootOfTrust := by
  have passes : checkAllowed device message.cmd = none := by
    unfold checkAllowed
    rw [configures, if_neg (by decide), if_pos uncalled, if_pos (by decide)]
  have found : KmCommand.ofCode message.cmd = some .configure := by
    rw [configures]
    rfl
  simp only [keymasterDispatchNonSecure, passes, found, dispatchCommand, doDispatch,
    parsed, uncalled]
  exact ⟨(setSystemVersion_ok request).1, (setSystemVersion_ok request).2.1⟩

/-- A configured keymaster has a root of trust. -/
def TrustBound (device : TrustyKeymaster) : Prop :=
  device.configureError = .ok → device.rootOfTrust.set = true

theorem TrustBound.serveMessage (bound : TrustBound device)
    (finds : FindsRootOfTrust platform device input) :
    TrustBound (serveMessage platform device input).2 := by
  have serves := @serves_serveMessage device arch platform input
  rw [← serveMessage_event.2]
  intro ok
  by_cases set : device.rootOfTrust.set = true
  · exact serves.setOnce.set set
  obtain ⟨same, _⟩ | ⟨_, executed⟩ := serves.configured
  · exact absurd (bound (same.symm.trans ok)) set
  cases input with
  | secure connection message => exact absurd (serves.allowed _ _ executed) not_mayExecute_configure
  | nonSecure connection message given =>
    obtain ⟨configures, parses⟩ := executed_configure executed
    obtain ⟨request, parsed⟩ := Option.isSome_iff_exists.mp parses
    obtain version | ⟨uncalled, _⟩ | ⟨configured, _⟩ := serves.allowed _ _ executed
    · cases version
    · have leaves := dispatch_configure platform given configures uncalled parsed
      exact leaves.2 ▸ (set_kmGetBoot_iff platform given.boot).mpr
        (finds configures uncalled parses)
    · exact absurd (bound configured) set

theorem keysBound_history {inputs : List (Input arch)}
    (meets : Meets (serveMessage platform) (FindsRootOfTrust platform) .initial inputs) :
    KeysBound (history platform inputs) := by
  suffices both : KeysBound (history platform inputs) ∧
    TrustBound (deviceAfter platform inputs) from both.1
  -- a command that needs a configuration is executed by a configured keymaster, and this has a root
  -- of trust
  refine @Transcript.invariant_of_meets _ _ _ _ _ _
    (fun events device => KeysBound events ∧ TrustBound device)
    (fun events device input finds both => ⟨?_, both.2.serveMessage finds⟩)
      ⟨by simp [KeysBound], by rintro ⟨⟩⟩ inputs meets
  intro event member nonSecure unset command ⟨err, executed⟩
  obtain old | new := mem_append.mp member
  · exact both.1 event old nonSecure unset command ⟨err, executed⟩
  rw [eq_of_mem_singleton new] at nonSecure unset executed
  have may := (serves_serveMessage platform input).allowed command err executed
  rw [nonSecure] at may
  rw [serveMessage_event.1] at unset
  refine may.configured_or.resolve_right fun ok => ?_
  rw [both.2 ok] at unset
  cases unset

def generate (given : Surroundings) : Input arch :=
  .nonSecure 0 ⟨KmCommand.generateKey.code, []⟩ { given with deserializes := true }

theorem executed_generate (configured : device.configureError = .ok) (given : Surroundings) :
    (serveMessage platform device (generate given : Input arch)).1.Executes .generateKey := by
  have passes : checkAllowed device KmCommand.generateKey.code = none := by
    unfold checkAllowed TrustyKeymaster.configureCalled
    rw [configured]
    decide
  have found : KmCommand.ofCode KmCommand.generateKey.code = some .generateKey := rfl
  refine ⟨given.error, ?_⟩
  simp only [serveMessage, generate, keymasterDispatchNonSecure, passes, found]
  rfl

/-- A message that leaves the keymaster configured without a root of trust lets it
generate keys. -/
theorem not_keysBound_generate (past : List (Input arch)) (given : Surroundings)
    (configured : (serveMessage platform (deviceAfter platform past) input).2.configureError = .ok)
    (unset : (serveMessage platform (deviceAfter platform past) input).2.rootOfTrust.set = false) :
    ¬ KeysBound (history platform (past ++ [input, generate given])) := by
  intro bound
  have executes := @executed_generate arch platform _ configured given
  have happened :
    ∀ event ∈ transcript (serveMessage platform) (deviceAfter platform past)
      [input, generate given], event ∈ history platform (past ++ [input, generate given]) := by
    intro event member
    unfold history
    rw [transcript_append]
    exact mem_append_right _ member
  have needs := bound _ (happened _ (mem_cons_of_mem _ (mem_singleton_self _))) rfl unset _ executes
  revert needs
  unfold NeedsNoConfiguration
  decide

theorem configuration_gate_iff (platform : Platform) :
    (∀ inputs : List (Input arch), Gated (history platform inputs)) ∧
      (∀ device message given command err, device.configureCalled = true →
        device.configureError ≠ .ok →
        (keymasterDispatchNonSecure platform device message given).executed = some (command, err) →
          command = .getVersion) ∧
      ∀ (past : List (Input arch)) (input : Input arch),
        Meets (serveMessage platform) (FindsRootOfTrust platform) .initial past →
          ((∀ future, Meets (serveMessage platform) (FindsRootOfTrust platform)
              (serveMessage platform (deviceAfter platform past) input).2 future →
                KeysBound (history platform (past ++ input :: future))) ↔
            FindsRootOfTrust platform (deviceAfter platform past) input) := by
  refine ⟨gated_history platform, ?_, fun past input meets =>
    ⟨fun bound => ?_, fun finds future later => ?_⟩⟩
  · intro device message given command err called failed executed
    exact ((serves_nonSecure platform message given).allowed command err executed).of_failed
      called failed
  · cases input with
    | secure connection message => trivial
    | nonSecure connection message given =>
      intro configures uncalled parses
      obtain ⟨request, parsed⟩ := Option.isSome_iff_exists.mp parses
      obtain ⟨configured, trust⟩ := dispatch_configure platform given configures uncalled parsed
      rw [← set_kmGetBoot_iff]
      -- otherwise the next message generates a key
      by_contra unset
      have still :
        (keymasterDispatchNonSecure platform (deviceAfter platform past) message
          given).device.rootOfTrust.set
          = false := (congrArg RootOfTrust.set trust).trans (Bool.eq_false_iff.mpr unset)
      refine @not_keysBound_generate arch platform (.nonSecure connection message given) past given
        configured still (bound [generate given] ⟨?_, trivial⟩)
      intro generates
      exact absurd generates (by decide)
  · exact keysBound_history ((meets_append past (input :: future)).mpr ⟨meets, finds, later⟩)

/-- A device where only the service for the boot parameters may be missing. -/
def surroundings (connect : Int) : Surroundings where
  allocates := true
  newOut := true
  deserializes := true
  error := .ok
  boot :=
    { connect := connect, malloc := true, sendMsg := 4, wait := noError, getMsg := noError,
      len := 52, readMsg := 52, putMsg := noError, cmd := getVerifiedBoot ||| respFlag ||| doneFlag,
      payload := ⟨9, 201812, 1, kmVerifiedBootVerified, testHash⟩ }

def configureThenGenerate (connect : Int) : List (Input arm64) :=
  [.nonSecure 0 ⟨KmCommand.configure.code, List.replicate 8 0⟩ (surroundings connect),
    generate (surroundings connect)]

theorem configuration_gate_iff_delivered :
    (history .armv8 (configureThenGenerate 1)).map (fun event => event.dispatched.executed) =
        [some (.configure, .ok), some (.generateKey, .ok)] ∧
      KeysBound (history .armv8 (configureThenGenerate 1)) := by
  refine ⟨by decide, ((configuration_gate_iff .armv8).2.2 [] _ trivial).mpr ?_ [_] ⟨?_, trivial⟩⟩
  · intro _ _ _
    exact .inr (.inr ⟨by decide, rfl, rfl, rfl, rfl, rfl, rfl, rfl, rfl⟩)
  · intro generates
    exact absurd generates (by decide)

theorem key_without_root_of_trust :
    (history .armv8 (configureThenGenerate errNoMemory)).map
        (fun event => (event.before.rootOfTrust.set, event.dispatched.executed)) =
      [(false, some (.configure, .ok)), (false, some (.generateKey, .ok))] ∧
      ¬ KeysBound (history .armv8 (configureThenGenerate errNoMemory)) :=
  ⟨by decide, not_keysBound_generate [] (surroundings errNoMemory) rfl rfl⟩

end Runs

end Trusty.Keymaster

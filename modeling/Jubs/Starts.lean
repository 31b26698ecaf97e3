/-
**One start after the other, over one Redis.**

Every start reconciles the schedulers of the queues of its handlers, whatever the starts before it
left there.  A start that is refused, while it reconciles or behind it, leaves what it wrote until
then.

Main definitions:

* `Jubs.Launch`, `Jubs.Site` — a start and how far it got, and the schedulers of all queues;
* `Jubs.siteRun` — starts, one after the other, as one machine;
* `Jubs.Declares` — what the handlers of a start declare of a queue.

Main results:

* `Jubs.siteRun_inv` — what every step of a sequence of starts keeps;
* `Jubs.schedules_contract` — **what a reconciliation leaves, and what a sequence of starts does**.
-/

import Jubs.Reconcile

set_option autoImplicit false

namespace Jubs

/-! ### A sequence of starts -/

/-- A start, and how far it got. -/
structure Launch where
  config : StartConfig
  handlers : List StartedHandler
  state : StartState

/-- The schedulers of every queue, and the starts that were made, the last one first. -/
structure Site where
  schedulers : String → Schedulers
  starts : List Launch

/-- What happens next.  Only the last start goes on: one before it has settled, or its process is
gone. -/
inductive SiteAct where
  /-- A start is called. -/
  | start (config : StartConfig) (handlers : List StartedHandler)
  /-- The last start goes on, without an answer of `reconcileSchedules`. -/
  | goes (act : StartAct)
  /-- Redis reconciles the queue the last start waits for. -/
  | reconciles (answers : ReconcileAnswers)

/-- What a start is answered with. -/
def answerOf : Except Thrown Unit → StartAct
  | .ok _ => .reconciles
  | .error error => .reconcileRefused error

/-- Whether a start is answered by `reconcileSchedules`. -/
def StartAct.isAnswer : StartAct → Bool
  | .reconciles | .reconcileRefused _ => true
  | _ => false

/-- A start takes a step. -/
def Launch.step (launch : Launch) (act : StartAct) : Option Launch :=
  (startRun launch.config launch.handlers launch.state act).map fun state =>
    { launch with state := state }

/-- Starts, one after the other. -/
def siteRun : Machine Site SiteAct := fun s act =>
  match act, s.starts with
  | .start config handlers, starts => some { s with starts := ⟨config, handlers, .init⟩ :: starts }
  | .goes act, launch :: earlier =>
      if act.isAnswer then none
      else (launch.step act).map fun launch => { s with starts := launch :: earlier }
  | .reconciles answers, launch :: earlier =>
      match launch.state.phase with
      | .reconciling request _ =>
          let answer := reconcileSchedules request.declared answers (s.schedulers request.queue)
          (launch.step (answerOf answer.2)).map fun launch =>
            { schedulers := Function.update s.schedulers request.queue answer.1
              starts := launch :: earlier }
      | _ => none
  | _, [] => none

/-- What the handlers of a start declare of a queue. -/
def Declares (launch : Launch) (queue : String) (declared : List ScheduleUpsert) : Prop :=
  (declaredSchedules launch.config.timezone launch.handlers queue).mapM id = .ok declared

/-- A start has called `reconcileSchedules` on a queue. -/
def Touches (launch : Launch) (queue : String) : Prop :=
  ∃ request, .reconcile request ∈ launch.state.log ∧ request.queue = queue

/-! ### What a start declares -/

variable {config : StartConfig} {handlers : List StartedHandler} {s t : StartState}

theorem not_mem_of_repeatedName {seen : List String} {name : String} (hseen : name ∈ seen)
    (h : repeatedName seen handlers = none) :
    name ∉ handlers.map fun handler => handler.definition.name := by
  induction handlers generalizing seen with
  | nil => exact List.not_mem_nil
  | cons handler handlers ih =>
      rw [repeatedName] at h
      split_ifs at h with hrepeated
      rw [List.map_cons, List.mem_cons, not_or]
      refine ⟨?_, ih (List.mem_cons_of_mem _ hseen) h⟩
      rintro rfl
      exact hrepeated hseen

/-- Handlers among which no name is repeated have distinct names. -/
theorem nodup_of_repeatedName {seen : List String} (h : repeatedName seen handlers = none) :
    (handlers.map fun handler => handler.definition.name).Nodup := by
  induction handlers generalizing seen with
  | nil => exact List.nodup_nil
  | cons handler handlers ih =>
      rw [repeatedName] at h
      split_ifs at h with hrepeated
      exact List.nodup_cons.2 ⟨not_mem_of_repeatedName List.mem_cons_self h, ih h⟩

theorem nodup_of_checkStart (h : checkStart config handlers = .ok ()) :
    (handlers.map fun handler => handler.definition.name).Nodup := by
  obtain ⟨byName, hbyName, -⟩ := bind_eq_ok.1 h
  rw [handlersByName] at hbyName
  split at hbyName
  · cases hbyName
  · rename_i hnone
    exact nodup_of_repeatedName hnone

/-- A declared schedule bears the name of its handler's definition. -/
theorem name_scheduleUpsert {timezone : Option String} {definition : JobDefinition}
    {schedule : Schedule} {upsert : ScheduleUpsert}
    (h : scheduleUpsert timezone definition schedule = .ok upsert) :
    upsert.envelope.name = definition.name := by
  obtain ⟨data, delivery, -, -, -, rfl⟩ := scheduleUpsert_eq_ok_iff.1 h
  rfl

/-- What a start declares of a queue bears distinct names when its handlers do. -/
theorem nodup_of_declares {timezone : Option String} {queue : String}
    {declared : List ScheduleUpsert}
    (hnames : (handlers.map fun handler => handler.definition.name).Nodup)
    (h : (declaredSchedules timezone handlers queue).mapM id = .ok declared) :
    (declared.map fun schedule => schedule.envelope.name).Nodup := by
  have hall := forall₂_of_mapM_eq_ok h
  clear h
  refine hnames.sublist ?_
  unfold declaredSchedules at hall
  induction handlers generalizing declared with
  | nil =>
      cases hall
      exact List.Sublist.refl _
  | cons handler handlers ih =>
      have hrest := (List.nodup_cons.1 hnames).2
      by_cases hqueue : handler.definition.queue = queue
      · cases hschedule : handler.schedule with
        | none =>
            simp only [hqueue, decide_true, List.filter_cons_of_pos, List.filterMap_cons, hschedule,
              Option.map_none] at hall
            exact (ih hrest hall).cons _
        | some schedule =>
            simp only [hqueue, decide_true, List.filter_cons_of_pos, List.filterMap_cons, hschedule,
              Option.map_some] at hall
            cases hall with
            | cons hfirst hothers =>
                rw [List.map_cons, List.map_cons, name_scheduleUpsert hfirst]
                exact (ih hrest hothers).cons_cons _
      · simp only [hqueue, decide_false, Bool.false_eq_true, not_false_eq_true,
          List.filter_cons_of_neg] at hall
        exact (ih hrest hall).cons _

/-! ### What one start keeps -/

/-- What is known of a start that was made. -/
structure LaunchInv (launch : Launch) : Prop where
  start : StartInv (startedQueues launch.handlers) launch.state
  passed : Passed launch.config launch.handlers launch.state
  /-- The driver was asked for what it reconciles, and the handlers declare it. -/
  requested : ∀ request rest, launch.state.phase = .reconciling request rest →
    .reconcile request ∈ launch.state.log ∧
      ∀ r ∈ request :: rest, Declares launch r.queue r.declared

theorem launchInv_init (config : StartConfig) (handlers : List StartedHandler) :
    LaunchInv ⟨config, handlers, .init⟩ :=
  ⟨startInv_init, rfl, fun _ _ h => by cases h⟩

/-- What the driver is asked to reconcile is what the handlers declare. -/
theorem declares_of_reconcileRequests {requests : List ReconcileRequest}
    (h : reconcileRequests config.timezone handlers = .ok requests) :
    ∀ r ∈ requests, Declares ⟨config, handlers, s⟩ r.queue r.declared := by
  intro r hr
  obtain ⟨queue, -, hrequest⟩ := exists_of_mem_mapM h hr
  obtain ⟨declared, hdeclared, hr⟩ := bind_eq_ok.1 hrequest
  obtain rfl := Except.ok.inj hr
  exact hdeclared

theorem requested_goOn {request : ReconcileRequest} {requests rest : List ReconcileRequest}
    (h : (goOn config handlers s requests).phase = .reconciling request rest) :
    requests = request :: rest ∧ .reconcile request ∈ (goOn config handlers s requests).log := by
  cases requests with
  | nil => cases h
  | cons first requests =>
      cases h
      exact ⟨rfl, List.mem_append_right _ List.mem_cons_self⟩

theorem goOn_log (config : StartConfig) (handlers : List StartedHandler) (s : StartState)
    (requests : List ReconcileRequest) :
    ∃ events, (goOn config handlers s requests).log = s.log ++ events ∧
      ∀ queue, .reconciled queue ∉ events := by
  cases requests with
  | nil => exact ⟨_, rfl, by simp⟩
  | cons first requests => exact ⟨_, rfl, by simp⟩

/-- A step of a start only adds to its log, and only the answer it waits for says that a queue was
reconciled. -/
theorem startRun_log {act : StartAct} (h : startRun config handlers s act = some t) :
    ∃ events, t.log = s.log ++ events ∧ ∀ queue, .reconciled queue ∈ events → act = .reconciles ∧
      ∀ request rest, s.phase = .reconciling request rest → queue = request.queue := by
  unfold startRun at h
  split at h
  case h_1 =>
    split at h <;> cases h <;> exact ⟨[], (List.append_nil _).symm, by simp⟩
  case h_2 =>
    split at h
    · cases h
    · cases h
      obtain ⟨events, hlog, hnone⟩ := goOn_log config handlers s _
      exact ⟨events, hlog, fun queue hmem => absurd hmem (hnone queue)⟩
  case h_3 =>
    split_ifs at h
    split at h <;> cases h
    exact ⟨[], (List.append_nil _).symm, by simp⟩
  case h_4 request rest hreconciling =>
    cases h
    obtain ⟨events, hlog, hnone⟩ := goOn_log config handlers
      { s with log := s.log ++ [.reconciled request.queue] } rest
    refine ⟨_, hlog.trans (List.append_assoc _ _ _), ?_⟩
    intro queue hmem
    rcases List.mem_append.1 hmem with hmem | hmem
    · cases List.mem_singleton.1 hmem
      refine ⟨rfl, fun request' rest' hphase => ?_⟩
      cases hreconciling.symm.trans hphase
      rfl
    · exact absurd hmem (hnone queue)
  case h_5 =>
    cases h
    exact ⟨[], (List.append_nil _).symm, by simp⟩
  case h_6 =>
    split_ifs at h
    cases h
    exact ⟨_, rfl, by simp⟩
  case h_7 =>
    split_ifs at h
    cases h
    exact ⟨_, rfl, by simp⟩
  case h_8 =>
    split_ifs at h
    split at h <;> cases h
    · exact ⟨[], (List.append_nil _).symm, by simp⟩
    · exact ⟨_, rfl, by simp⟩
  case h_9 =>
    split_ifs at h
    cases h
    exact ⟨[], (List.append_nil _).symm, by simp⟩
  case h_10 =>
    split_ifs at h
    cases h
    exact ⟨[], (List.append_nil _).symm, by simp⟩
  case h_11 =>
    cases h
    exact ⟨_, rfl, by simp⟩
  case h_12 => cases h

/-- What a step of a start leaves to be reconciled was requested. -/
theorem LaunchInv.step {launch launch' : Launch} {act : StartAct} (h : LaunchInv launch)
    (hstep : launch.step act = some launch') : LaunchInv launch' := by
  obtain ⟨t, hrun, rfl⟩ := Option.map_eq_some_iff.1 hstep
  refine ⟨startRun_inv h.start hrun, startRun_passed h.passed hrun, ?_⟩
  obtain ⟨config, handlers, s⟩ := launch
  intro request rest hphase
  change t.phase = .reconciling request rest at hphase
  change .reconcile request ∈ t.log ∧ _
  unfold startRun at hrun
  split at hrun
  case h_1 =>
    split at hrun <;> cases hrun <;> cases hphase
  case h_2 =>
    split at hrun
    · cases hrun
    · rename_i requests hrequests
      cases hrun
      obtain ⟨rfl, hmem⟩ := requested_goOn hphase
      exact ⟨hmem, declares_of_reconcileRequests hrequests⟩
  case h_3 =>
    split_ifs at hrun
    split at hrun <;> cases hrun
    cases hphase
  case h_4 first requests hreconciling =>
    cases hrun
    obtain ⟨rfl, hmem⟩ := requested_goOn hphase
    exact ⟨hmem, fun r hr => (h.requested first _ hreconciling).2 r (List.mem_cons_of_mem _ hr)⟩
  case h_5 =>
    cases hrun
    cases hphase
  case h_6 hconsuming =>
    split_ifs at hrun
    cases hrun
    cases hconsuming.symm.trans hphase
  case h_7 hconsuming =>
    split_ifs at hrun
    cases hrun
    cases hconsuming.symm.trans hphase
  case h_8 =>
    split_ifs at hrun
    split at hrun <;> cases hrun <;> cases hphase
  case h_9 =>
    split_ifs at hrun
    cases hrun
    cases hphase
  case h_10 =>
    split_ifs at hrun
    cases hrun
    cases hphase
  case h_11 hrunning =>
    cases hrun
    cases hrunning.symm.trans hphase
  case h_12 => cases hrun

/-- A queue a start reconciled is none of those it still reconciles. -/
theorem LaunchInv.not_reconciled {launch : Launch} (h : LaunchInv launch)
    {request : ReconcileRequest}
    {rest : List ReconcileRequest} (hphase : launch.state.phase = .reconciling request rest) :
    .reconciled request.queue ∉ launch.state.log := by
  obtain ⟨-, hqueues⟩ : BeforeConsumers launch.state.log ∧ reconciledQueues launch.state.log ++
      request.queue :: rest.map ReconcileRequest.queue = startedQueues launch.handlers := by
    simpa [PhaseInv, hphase] using h.start.phase
  have hnodup : (startedQueues launch.handlers).Nodup := nodup_onceEach _
  rw [← hqueues] at hnodup
  intro hlog
  have hmem : request.queue ∈ reconciledQueues launch.state.log :=
    List.mem_filterMap.2 ⟨_, hlog, rfl⟩
  exact (List.nodup_append.1 hnodup).2.2 _ hmem _ List.mem_cons_self rfl

/-- What a start declares of the queue it reconciles bears distinct names. -/
theorem LaunchInv.nodup {launch : Launch} (h : LaunchInv launch) {request : ReconcileRequest}
    {rest : List ReconcileRequest} (hphase : launch.state.phase = .reconciling request rest) :
    (request.declared.map fun schedule => schedule.envelope.name).Nodup := by
  obtain ⟨hcheck, -⟩ : checkStart launch.config launch.handlers = .ok () ∧
      ¬ScheduleRefused launch.config launch.handlers := by
    simpa [Passed, hphase] using h.passed
  exact nodup_of_declares (nodup_of_checkStart hcheck)
    ((h.requested _ _ hphase).2 request List.mem_cons_self)

/-! ### What a sequence of starts keeps -/

/-- What holds of the schedulers of all queues, after some of the starts. -/
structure SiteInv (initial : String → Schedulers) (s : Site) : Prop where
  launches : ∀ launch ∈ s.starts, LaunchInv launch
  /-- A scheduler without the prefix is as it was at the very beginning. -/
  others : ∀ queue key, isPrefixed key = false →
    (s.schedulers queue).lookup key = (initial queue).lookup key
  /-- A queue a start reconciled holds what that start declares, until a later start touches it. -/
  reconciled : ∀ later launch earlier, s.starts = later ++ launch :: earlier →
    ∀ queue, .reconciled queue ∈ launch.state.log → (∀ other ∈ later, ¬Touches other queue) →
      ∃ declared, Declares launch queue declared ∧ Reconciled declared (s.schedulers queue)

variable {initial : String → Schedulers} {site site' : Site}

/-- A step of a start keeps what was seen of it. -/
theorem Launch.log_step {launch launch' : Launch} {act : StartAct}
    (hstep : launch.step act = some launch') : ∃ events,
      launch'.state.log = launch.state.log ++ events ∧
        ∀ queue, .reconciled queue ∈ events → act = .reconciles ∧
          ∀ request rest, launch.state.phase = .reconciling request rest →
            queue = request.queue := by
  obtain ⟨t, hrun, rfl⟩ := Option.map_eq_some_iff.1 hstep
  exact startRun_log hrun

theorem Launch.declares_step {launch launch' : Launch} {act : StartAct} {queue : String}
    {declared : List ScheduleUpsert} (hstep : launch.step act = some launch') :
    Declares launch' queue declared ↔ Declares launch queue declared := by
  obtain ⟨t, -, rfl⟩ := Option.map_eq_some_iff.1 hstep
  exact Iff.rfl

theorem Launch.touches_step {launch launch' : Launch} {act : StartAct} {queue : String}
    (hstep : launch.step act = some launch') (h : Touches launch queue) :
    Touches launch' queue := by
  obtain ⟨events, hlog, -⟩ := launch.log_step hstep
  obtain ⟨request, hrequest, hqueue⟩ := h
  exact ⟨request, hlog ▸ List.mem_append_left _ hrequest, hqueue⟩

/-- The last start takes a step: a queue it has not touched stays as it is, and so does one it had
reconciled before. -/
theorem SiteInv.step {launch launch' : Launch} {earlier : List Launch} {act : StartAct}
    {schedulers : String → Schedulers} (hinv : SiteInv initial site)
    (hstarts : site.starts = launch :: earlier) (hstep : launch.step act = some launch')
    (hothers : ∀ queue key, isPrefixed key = false →
      (schedulers queue).lookup key = (site.schedulers queue).lookup key)
    (huntouched : ∀ queue, ¬Touches launch queue → schedulers queue = site.schedulers queue)
    (hreconciled : ∀ queue, .reconciled queue ∈ launch'.state.log →
      .reconciled queue ∈ launch.state.log ∧ schedulers queue = site.schedulers queue ∨
        ∃ declared, Declares launch queue declared ∧ Reconciled declared (schedulers queue)) :
    SiteInv initial ⟨schedulers, launch' :: earlier⟩ := by
  have hlaunch : LaunchInv launch := hinv.launches launch
    (by rw [hstarts]; exact List.mem_cons_self)
  refine ⟨?_, ?_, ?_⟩
  · intro other hother
    rcases List.mem_cons.1 hother with rfl | hother
    · exact hlaunch.step hstep
    · exact hinv.launches other (by rw [hstarts]; exact List.mem_cons_of_mem _ hother)
  · intro queue key hkey
    rw [hothers queue key hkey, hinv.others queue key hkey]
  · intro later first before hsplit queue hlog hlater
    cases later with
    | nil =>
        obtain ⟨rfl, rfl⟩ := List.cons_eq_cons.1 hsplit
        rcases hreconciled queue hlog with ⟨hbefore, hsame⟩ | ⟨declared, hdeclares, hleft⟩
        · obtain ⟨declared, hdeclares, hleft⟩ :=
            hinv.reconciled [] launch _ hstarts queue hbefore hlater
          refine ⟨declared, (launch.declares_step hstep).2 hdeclares, ?_⟩
          change Reconciled declared (schedulers queue)
          rw [hsame]
          exact hleft
        · exact ⟨declared, (launch.declares_step hstep).2 hdeclares, hleft⟩
    | cons last later =>
        obtain ⟨rfl, hrest⟩ := List.cons_eq_cons.1 hsplit
        have huntouched' : ¬Touches launch queue := fun htouches =>
          hlater _ List.mem_cons_self (launch.touches_step hstep htouches)
        have hold : ∀ other ∈ launch :: later, ¬Touches other queue := by
          intro other hother
          rcases List.mem_cons.1 hother with rfl | hother
          · exact huntouched'
          · exact hlater other (List.mem_cons_of_mem _ hother)
        have hstarts' : site.starts = (launch :: later) ++ first :: before := by
          rw [hstarts, hrest]
          rfl
        obtain ⟨declared, hdeclares, hleft⟩ :=
          hinv.reconciled _ first before hstarts' queue hlog hold
        refine ⟨declared, hdeclares, ?_⟩
        change Reconciled declared (schedulers queue)
        rw [huntouched queue huntouched']
        exact hleft

/-- A start that is called has seen nothing yet. -/
theorem SiteInv.start (hinv : SiteInv initial site) (config : StartConfig)
    (handlers : List StartedHandler) :
    SiteInv initial { site with starts := ⟨config, handlers, .init⟩ :: site.starts } := by
  refine ⟨?_, hinv.others, ?_⟩
  · intro launch hlaunch
    rcases List.mem_cons.1 hlaunch with rfl | hlaunch
    · exact launchInv_init config handlers
    · exact hinv.launches launch hlaunch
  · intro later launch earlier hsplit queue hlog hlater
    cases later with
    | nil =>
        obtain ⟨rfl, -⟩ := List.cons_eq_cons.1 hsplit
        cases hlog
    | cons last later =>
        obtain ⟨-, hrest⟩ := List.cons_eq_cons.1 hsplit
        exact hinv.reconciled later launch earlier hrest queue hlog fun other hother =>
          hlater other (List.mem_cons_of_mem _ hother)

theorem eq_ok_of_answerOf {outcome : Except Thrown Unit} (h : answerOf outcome = .reconciles) :
    outcome = .ok () := by
  cases outcome with
  | error error => cases h
  | ok => rfl

/-- Redis reconciles the queue the last start waits for. -/
theorem SiteInv.reconciles {launch launch' : Launch} {earlier : List Launch}
    {request : ReconcileRequest} {rest : List ReconcileRequest} {answers : ReconcileAnswers}
    {answer : Schedulers × Except Thrown Unit} (hinv : SiteInv initial site)
    (hstarts : site.starts = launch :: earlier)
    (hphase : launch.state.phase = .reconciling request rest)
    (hanswer : reconcileSchedules request.declared answers (site.schedulers request.queue) = answer)
    (hstep : launch.step (answerOf answer.2) = some launch') :
    SiteInv initial ⟨Function.update site.schedulers request.queue answer.1,
      launch' :: earlier⟩ := by
  subst hanswer
  have hlaunch : LaunchInv launch := hinv.launches launch
    (by rw [hstarts]; exact List.mem_cons_self)
  have hrequest := hlaunch.requested request rest hphase
  have hlaw := reconcileLaw (hlaunch.nodup hphase) answers (site.schedulers request.queue)
  refine hinv.step hstarts hstep ?_ ?_ ?_
  · intro queue key hkey
    by_cases hqueue : queue = request.queue
    · subst hqueue
      rw [Function.update_self]
      exact hlaw.others key hkey
    · rw [Function.update_of_ne hqueue]
  · intro queue huntouched
    refine Function.update_of_ne ?_ _ _
    rintro rfl
    exact huntouched ⟨request, hrequest.1, rfl⟩
  · intro queue hlog
    obtain ⟨events, hevents, hanswered⟩ := launch.log_step hstep
    rw [hevents, List.mem_append] at hlog
    rcases hlog with hbefore | hnow
    · refine Or.inl ⟨hbefore, Function.update_of_ne ?_ _ _⟩
      rintro rfl
      exact hlaunch.not_reconciled hphase hbefore
    · obtain ⟨hact, hqueue⟩ := hanswered queue hnow
      obtain rfl := hqueue request rest hphase
      refine Or.inr ⟨request.declared, hrequest.2 request List.mem_cons_self, ?_⟩
      rw [Function.update_self]
      exact hlaw.resolved (eq_ok_of_answerOf hact)

/-- **What every step of a sequence of starts keeps.** -/
theorem siteRun_inv {act : SiteAct} (hinv : SiteInv initial site)
    (h : siteRun site act = some site') : SiteInv initial site' := by
  unfold siteRun at h
  split at h
  case h_1 _ config handlers =>
    cases h
    exact hinv.start config handlers
  case h_2 act launch earlier hstarts =>
    split_ifs at h with hanswer
    obtain ⟨launch', hstep, rfl⟩ := Option.map_eq_some_iff.1 h
    obtain ⟨events, hlog, hnone⟩ := launch.log_step hstep
    refine hinv.step hstarts hstep (fun _ _ _ => rfl) (fun _ _ => rfl) ?_
    intro queue hmem
    rw [hlog, List.mem_append] at hmem
    refine Or.inl ⟨hmem.resolve_right fun hnow => ?_, rfl⟩
    obtain ⟨rfl, -⟩ := hnone queue hnow
    exact hanswer rfl
  case h_3 answers launch earlier hstarts =>
    split at h
    · rename_i request rest hphase
      obtain ⟨launch', hstep, rfl⟩ := Option.map_eq_some_iff.1 h
      exact hinv.reconciles hstarts hphase rfl hstep
    · cases h
  case h_4 => cases h

/-! ### What a sequence of starts does -/

/-- What is owed by the schedulers of all queues, after a sequence of starts. -/
structure SiteLaw (initial : String → Schedulers) (site : Site) : Prop where
  /-- A queue holds what a start declares that completed, or else reconciled it, once no later start
  has touched it. -/
  scheduled : ∀ later launch earlier, site.starts = later ++ launch :: earlier → ∀ queue,
    (launch.state.phase = .running ∧ queue ∈ startedQueues launch.handlers) ∨
      .reconciled queue ∈ launch.state.log → (∀ other ∈ later, ¬Touches other queue) →
        ∃ declared, Declares launch queue declared ∧ Reconciled declared (site.schedulers queue)
  /-- A scheduler without the prefix is as it was before the first of them. -/
  others : ∀ queue key, isPrefixed key = false →
    (site.schedulers queue).lookup key = (initial queue).lookup key

/-- A start that completed has reconciled the queues of its handlers. -/
theorem LaunchInv.reconciled_of_running {launch : Launch} (h : LaunchInv launch)
    (hrunning : launch.state.phase = .running) {queue : String}
    (hqueue : queue ∈ startedQueues launch.handlers) : .reconciled queue ∈ launch.state.log := by
  obtain ⟨hasked, -, -⟩ : Asked (startedQueues launch.handlers) launch.state.fates
      launch.state.log ∧ openedQueues launch.state.fates = startedQueues launch.handlers ∧
        ∀ queue, .close queue ∉ launch.state.log := by
    simpa [PhaseInv, hrunning] using h.start.phase
  obtain ⟨front, back, hlog, -, hall⟩ := hasked.behind
  rw [hlog]
  exact List.mem_append_left _ (mem_reconciledQueues (hall ▸ hqueue))

/-- **After a sequence of starts**, whatever the driver and Redis answer each of them. -/
theorem siteLaw {initial : String → Schedulers} {l : List SiteAct} {site : Site}
    (h : siteRun.exec ⟨initial, []⟩ l = some site) : SiteLaw initial site := by
  have hinit : SiteInv initial ⟨initial, []⟩ := by
    refine ⟨fun launch hlaunch => ?_, fun _ _ _ => rfl, fun later launch earlier hsplit => ?_⟩
    · cases hlaunch
    · cases (List.append_eq_nil_iff.1 hsplit.symm).2
  have hinv : SiteInv initial site :=
    Machine.exec_invariant (fun _ _ _ hinv hstep => siteRun_inv hinv hstep) h hinit
  refine ⟨?_, hinv.others⟩
  intro later launch earlier hsplit queue hdone hlater
  refine hinv.reconciled later launch earlier hsplit queue ?_ hlater
  rcases hdone with ⟨hrunning, hqueue⟩ | hdone
  · have hmem : launch ∈ site.starts := hsplit ▸ List.mem_append_right _ List.mem_cons_self
    exact (hinv.launches launch hmem).reconciled_of_running hrunning hqueue
  · exact hdone

/-- **What a reconciliation leaves, and what a sequence of starts does.** -/
theorem schedules_contract :
    (∀ (declared : List ScheduleUpsert) (answers : ReconcileAnswers) (schedulers : Schedulers),
      (declared.map fun schedule => schedule.envelope.name).Nodup →
        ReconcileLaw declared answers schedulers) ∧
    ∀ (initial : String → Schedulers) (l : List SiteAct) (site : Site),
      siteRun.exec ⟨initial, []⟩ l = some site → SiteLaw initial site :=
  ⟨fun _ answers schedulers hnames => reconcileLaw hnames answers schedulers,
    fun _ _ _ h => siteLaw h⟩

/-- A Redis that refuses nothing. -/
def granted : ReconcileAnswers where
  existing := .ok ()
  removal _ := .ok ()
  order := id
  order_perm _ := List.Perm.refl _
  upsert _ := .ok ()

/-- The handler of a job that recurs each morning, in a time zone without a name. -/
def morningHandler : StartedHandler :=
  ⟨{ lineJob with schedule := true }, some ⟨.pattern "0 9 * * *", some "", .null⟩⟩

/-- A start without a schedule that completes, and one with a schedule whose consumer is refused. -/
def refusedLater : List SiteAct :=
  [.start ⟨[], [], none, []⟩ [⟨lineJob, none⟩], .goes .checks, .goes .declares, .reconciles granted,
    .goes (.opens "mail"), .goes .gathers,
    .start ⟨[], [], none, []⟩ [morningHandler], .goes .checks, .goes .declares, .reconciles granted,
    .goes (.consumeRefused "mail" typeError), .goes .gathers, .goes .throws]

/-- What is declared by the handlers of the last start that completed, of a queue it started, is
what the queue holds. -/
def LastCompletedHolds (site : Site) : Prop :=
  ∀ later launch earlier, site.starts = later ++ launch :: earlier → launch.state.phase = .running →
    (∀ other ∈ later, other.state.phase ≠ .running) → ∀ queue ∈ startedQueues launch.handlers,
      ∃ declared, Declares launch queue declared ∧ Reconciled declared (site.schedulers queue)

theorem schedules_contract_example :
    (∃ site, siteRun.exec ⟨fun _ => ∅, []⟩ refusedLater = some site ∧
      SiteLaw (fun _ => ∅) site) ∧
    ReconcileLaw [⟨.everyMs 1, none, writeEnvelope lineJob .null .schedule, deliveryDefaults⟩]
      granted ∅ :=
  ⟨⟨_, rfl, schedules_contract.2 _ refusedLater _ rfl⟩,
    schedules_contract.1 _ granted ∅ (List.nodup_singleton _)⟩

/-- **A start that is refused behind its reconciliation has replaced what the last start that
completed declares**, and a time zone without a name is not carried. -/
theorem refused_start_replaces :
    (∃ site, siteRun.exec ⟨fun _ => ∅, []⟩ refusedLater = some site ∧ ¬LastCompletedHolds site) ∧
    ∃ upsert, scheduleUpsert none { lineJob with schedule := true }
      ⟨.pattern "0 9 * * *", some "", .null⟩ = .ok upsert ∧ upsert.timezone = some "" ∧
        (toScheduler upsert).repeatOptions.tz = none := by
  refine ⟨⟨_, rfl, ?_⟩, _, rfl, rfl, rfl⟩
  intro hholds
  -- the first start declares nothing of the queue
  obtain ⟨declared, hdeclares, hreconciled⟩ := hholds [_] _ [] rfl rfl
    (fun other hother => by rw [List.mem_singleton.1 hother]; exact fun h => by cases h)
    "mail" List.mem_cons_self
  obtain rfl := Except.ok.inj (hdeclares.symm.trans (show _ = Except.ok [] from rfl))
  have hmem : schedulerId "invoice.line" ∈ ([] : List String) := by
    refine hreconciled.keys.mem_iff.1 (List.mem_filter.2 ⟨?_, isPrefixed_schedulerId _⟩)
    exact List.mem_cons_self
  cases hmem

end Jubs

import EventGateway.LogThrottle
import EventGateway.StructuredLogger

namespace EventGateway

open JsString StructuredLogger

namespace OutageReports

open LogThrottle

abbrev LogLine := LogLevel × JsString × List (JsString × LogValue)

def logIntervalMs : ℤ := 30000

/-- `degraded` and `errorThrottle` of the worker, `poisonedSinceLastPublish` and `poisonThrottle` of the queue holder. -/
structure Reporter where
  degraded : Bool
  throttle : LogThrottle ℤ

def Reporter.new : Reporter := ⟨false, .new⟩

structure Wording where
  level : LogLevel
  failed : String
  recovered : String

section Code

variable (w : Wording)

def failureLine (errorCode : Text) (suppressedCount : ℕ) : LogLine :=
  (w.level, ofString w.failed, [(ofString "status", .string (ofString "FAILED")),
    (ofString "errorCode", .string (ofText errorCode)), (ofString "suppressedCount", .number (.finite suppressedCount))])

def recoveryLine (suppressedCount : ℕ) : LogLine :=
  (.log, ofString w.recovered, [(ofString "status", .string (ofString "READY")),
    (ofString "suppressedCount", .number (.finite suppressedCount))])

def reportFailure (reporter : Reporter) (errorCode : Text) (now : ℤ) : List LogLine × Reporter :=
  match shouldEmit logIntervalMs reporter.throttle errorCode now with
  | (.emitted suppressedCount, throttle) => ([failureLine w errorCode suppressedCount], ⟨true, throttle⟩)
  | (_, throttle) => ([], ⟨true, throttle⟩)

def reportSuccess (reporter : Reporter) : List LogLine × Reporter :=
  if !reporter.degraded then ([], reporter)
  else
    match reset reporter.throttle with
    | (.total suppressedCount, throttle) => ([recoveryLine w suppressedCount], ⟨false, throttle⟩)
    | (_, throttle) => ([], ⟨false, throttle⟩)

inductive Signal
  | failure (errorCode : Text) (now : ℤ)
  | success

def respond (reporter : Reporter) : Signal → List LogLine × Reporter
  | .failure errorCode now => reportFailure w reporter errorCode now
  | .success => reportSuccess w reporter

def report (reporter : Reporter) : List Signal → List LogLine × Reporter
  | [] => ([], reporter)
  | signal :: signals =>
    let (lines, reporter) := respond w reporter signal
    let (more, reporter) := report reporter signals
    (lines ++ more, reporter)

end Code

end OutageReports

namespace WebhookEventsWorkerService

open OutageReports

def wording : Wording := ⟨.error, "worker_error", "worker_redis_recovered"⟩

def handleWorkerError : Reporter → Text → ℤ → List LogLine × Reporter := reportFailure wording

def handleWorkerReady : Reporter → List LogLine × Reporter := reportSuccess wording

end WebhookEventsWorkerService

namespace WebhookEventsQueueHolder

open OutageReports

def wording : Wording := ⟨.warn, "webhook_events_queue_poisoned", "webhook_events_queue_recovered"⟩

def reportPoisoned : Reporter → Text → ℤ → List LogLine × Reporter := reportFailure wording

def markPublishSucceeded : Reporter → List LogLine × Reporter := reportSuccess wording

end WebhookEventsQueueHolder

namespace OutageReports

open LogThrottle

section Throttled

def calls (outage : List (Text × ℤ)) : List (Call ℤ) := outage.map (fun e => .shouldEmit e.1 e.2)

def shownEntry : Call ℤ × Answer → Option (Text × ℤ × ℕ)
  | (.shouldEmit key now, .emitted n) => some (key, now, n)
  | _ => none

def shown (outage : List (Text × ℤ)) : List (Text × ℤ × ℕ) :=
  (LogThrottle.run logIntervalMs (calls outage)).1.filterMap shownEntry

def throttled (outage : List (Text × ℤ)) : LogThrottle ℤ := (LogThrottle.run logIntervalMs (calls outage)).2

variable {outage : List (Text × ℤ)}

theorem calls_snoc (outage : List (Text × ℤ)) (key : Text) (now : ℤ) :
    calls (outage ++ [(key, now)]) = calls outage ++ [.shouldEmit key now] := by
  simp [calls]

theorem shown_snoc (outage : List (Text × ℤ)) (key : Text) (now : ℤ) :
    shown (outage ++ [(key, now)]) = shown outage ++
      (shownEntry (.shouldEmit key now, (shouldEmit logIntervalMs (throttled outage) key now).1)).toList := by
  have hsingle (e : Call ℤ × Answer) : [e].filterMap shownEntry = (shownEntry e).toList := by
    cases h : shownEntry e <;> simp [h]
  rw [shown, calls_snoc, run_snoc, List.filterMap_append, hsingle]
  rfl

theorem throttled_snoc (outage : List (Text × ℤ)) (key : Text) (now : ℤ) :
    throttled (outage ++ [(key, now)]) = (shouldEmit logIntervalMs (throttled outage) key now).2 := by
  rw [throttled, calls_snoc, run_snoc]
  rfl

structure Accounts (outage : List (Text × ℤ)) : Prop where
  first : (shown outage).head? = outage.head?.map (fun error => (error.1, error.2, 0))
  count : outage.length =
    (shown outage).length + ((shown outage).map (fun e => e.2.2)).sum + total (throttled outage).suppressedCounts
  sublist : ((shown outage).map (fun e => (e.1, e.2.1))).Sublist outage
  told : ∀ error ∈ outage, ∃ e ∈ shown outage, e.1 = error.1
  spaced : (shown outage).Pairwise (fun e f => e.1 = f.1 → logIntervalMs ≤ f.2.1 - e.2.1)

structure Dated (outage : List (Text × ℤ)) : Prop where
  logged : ∀ key t, (throttled outage).lastEmittedAt.lookup key = some t → ∃ e ∈ shown outage, e.1 = key
  last : ∀ e ∈ shown outage, ∃ t, (throttled outage).lastEmittedAt.lookup e.1 = some t ∧
    (t = e.2.1 ∨ logIntervalMs ≤ t - e.2.1)

theorem accounts_suppressed {key : Text} {now : ℤ} (h : Accounts outage) (hdated : Dated outage)
    (hsoon : isTooSoon logIntervalMs (throttled outage) key now = true) :
    Accounts (outage ++ [(key, now)]) ∧ Dated (outage ++ [(key, now)]) := by
  have hemit : shouldEmit logIntervalMs (throttled outage) key now = (.suppressed, { throttled outage with
      suppressedCounts := (throttled outage).suppressedCounts.insert key ((throttled outage).suppressedCount key + 1) }) :=
    if_pos hsoon
  have hshown : shown (outage ++ [(key, now)]) = shown outage := by
    rw [shown_snoc, hemit]
    exact List.append_nil _
  have hthrottled := throttled_snoc outage key now
  rw [hemit] at hthrottled
  -- an error is held back only when its code has been logged before
  have htold : ∃ e ∈ shown outage, e.1 = key := by
    cases hlast : (throttled outage).lastEmittedAt.lookup key with
    | none => simp [isTooSoon, hlast] at hsoon
    | some t => exact hdated.logged key t hlast
  have hsum : total ((throttled outage).suppressedCounts.insert key ((throttled outage).suppressedCount key + 1)) +
      (throttled outage).suppressedCount key =
        total (throttled outage).suppressedCounts + ((throttled outage).suppressedCount key + 1) := total_insert key _
  refine ⟨⟨?_, ?_, ?_, ?_, ?_⟩, ?_⟩
  · rw [hshown, h.first, List.head?_append]
    cases outage with
    | nil =>
      obtain ⟨e, he, -⟩ := htold
      cases he
    | cons error outage => rfl
  · rw [hshown, hthrottled, List.length_append, h.count, List.length_singleton]
    dsimp only
    omega
  · rw [hshown]
    exact h.sublist.trans (List.sublist_append_left outage _)
  · rw [hshown]
    intro error herror
    rcases List.mem_append.mp herror with herror | herror
    · exact h.told error herror
    · rw [List.mem_singleton.mp herror]
      exact htold
  · rw [hshown]
    exact h.spaced
  · constructor
    · rw [hshown, hthrottled]
      exact hdated.logged
    · rw [hshown, hthrottled]
      exact hdated.last

theorem accounts_emitted {key : Text} {now : ℤ} (h : Accounts outage) (hdated : Dated outage)
    (hsoon : isTooSoon logIntervalMs (throttled outage) key now = false) :
    Accounts (outage ++ [(key, now)]) ∧ Dated (outage ++ [(key, now)]) := by
  have hemit : shouldEmit logIntervalMs (throttled outage) key now = (.emitted ((throttled outage).suppressedCount key),
      ⟨(throttled outage).lastEmittedAt.insert key now, (throttled outage).suppressedCounts.insert key 0⟩) :=
    if_neg (by simp [hsoon])
  have hshown : shown (outage ++ [(key, now)]) = shown outage ++ [(key, now, (throttled outage).suppressedCount key)] := by
    rw [shown_snoc, hemit]
    rfl
  have hthrottled := throttled_snoc outage key now
  rw [hemit] at hthrottled
  have hsum : total ((throttled outage).suppressedCounts.insert key 0) + (throttled outage).suppressedCount key =
      total (throttled outage).suppressedCounts + 0 := total_insert key _
  -- every earlier line of the code is older by the interval
  have hlater (e : Text × ℤ × ℕ) (he : e ∈ shown outage) (hkey : e.1 = key) : logIntervalMs ≤ now - e.2.1 := by
    obtain ⟨t, ht, hsince⟩ := hdated.last e he
    rw [hkey] at ht
    have hnow : logIntervalMs ≤ now - t := by simpa [isTooSoon, ht] using hsoon
    unfold logIntervalMs at hnow hsince ⊢
    omega
  refine ⟨⟨?_, ?_, ?_, ?_, ?_⟩, ⟨?_, ?_⟩⟩
  · rw [hshown, List.head?_append, List.head?_append, h.first]
    cases outage with
    | nil => rfl
    | cons error outage => rfl
  · rw [hshown, hthrottled, List.length_append, List.length_append, List.map_append, List.sum_append, h.count]
    simp only [List.length_singleton, List.map_singleton, List.sum_singleton]
    omega
  · rw [hshown, List.map_append]
    exact h.sublist.append (List.Sublist.refl _)
  · rw [hshown]
    intro error herror
    rcases List.mem_append.mp herror with herror | herror
    · obtain ⟨e, he, hcode⟩ := h.told error herror
      exact ⟨e, List.mem_append_left _ he, hcode⟩
    · rw [List.mem_singleton.mp herror]
      exact ⟨_, List.mem_append_right _ List.mem_cons_self, rfl⟩
  · rw [hshown, List.pairwise_append]
    refine ⟨h.spaced, List.pairwise_singleton _ _, fun e he f hf hef => ?_⟩
    obtain rfl := List.mem_singleton.mp hf
    exact hlater e he hef
  · rw [hshown, hthrottled]
    intro k t ht
    by_cases hk : k = key
    · exact ⟨_, List.mem_append_right _ List.mem_cons_self, hk.symm⟩
    · rw [AList.lookup_insert_ne hk] at ht
      obtain ⟨e, he, hcode⟩ := hdated.logged k t ht
      exact ⟨e, List.mem_append_left _ he, hcode⟩
  · rw [hshown, hthrottled]
    intro e he
    by_cases hk : e.1 = key
    · refine ⟨now, by rw [hk, AList.lookup_insert], ?_⟩
      rcases List.mem_append.mp he with he | he
      · exact .inr (hlater e he hk)
      · rw [List.mem_singleton.mp he]
        exact .inl rfl
    · rcases List.mem_append.mp he with he | he
      · rw [AList.lookup_insert_ne hk]
        exact hdated.last e he
      · rw [List.mem_singleton.mp he] at hk
        exact absurd rfl hk

theorem accounts (outage : List (Text × ℤ)) : Accounts outage ∧ Dated outage := by
  induction outage using List.reverseRecOn with
  | nil =>
    refine ⟨⟨rfl, rfl, List.Sublist.refl _, fun e he => ?_, List.Pairwise.nil⟩, ⟨fun key t ht => ?_, fun e he => ?_⟩⟩
    · cases he
    · cases ht
    · cases he
  | append_singleton outage error ih =>
    obtain ⟨key, now⟩ := error
    cases hsoon : isTooSoon logIntervalMs (throttled outage) key now with
    | true => exact accounts_suppressed ih.1 ih.2 hsoon
    | false => exact accounts_emitted ih.1 ih.2 hsoon

end Throttled

section Lines

variable {w : Wording}

theorem report_append (reporter : Reporter) (signals signals' : List Signal) :
    report w reporter (signals ++ signals') =
      ((report w reporter signals).1 ++ (report w (report w reporter signals).2 signals').1,
        (report w (report w reporter signals).2 signals').2) := by
  induction signals generalizing reporter with
  | nil => rfl
  | cons signal signals ih => simp only [List.cons_append, report, ih, List.append_assoc]

theorem report_success (reporter : Reporter) (h : reporter.degraded = false → reporter = .new) :
    (reportSuccess w reporter).2 = .new := by
  unfold reportSuccess
  cases hd : reporter.degraded with
  | false => exact h hd
  | true => rfl

theorem degraded_reportFailure (reporter : Reporter) (errorCode : Text) (now : ℤ) :
    (reportFailure w reporter errorCode now).2.degraded = true := by
  unfold reportFailure
  split <;> rfl

theorem new_of_not_degraded (signals : List Signal) :
    (report w .new signals).2.degraded = false → (report w .new signals).2 = .new := by
  induction signals using List.reverseRecOn with
  | nil => exact fun _ => rfl
  | append_singleton signals signal ih =>
    rw [report_append]
    cases signal with
    | failure errorCode now =>
      intro hd
      have htrue := degraded_reportFailure (w := w) (report w .new signals).2 errorCode now
      cases htrue.symm.trans hd
    | success => exact fun _ => report_success _ ih

theorem report_recovered {before : List Signal} (h : before = [] ∨ before.getLast? = some .success) :
    (report w .new before).2 = .new := by
  rcases List.eq_nil_or_concat before with rfl | ⟨signals, signal, rfl⟩
  · rfl
  · obtain rfl : signal = .success := by simpa using h
    rw [List.concat_eq_append, report_append]
    exact report_success _ (new_of_not_degraded signals)

def failures (outage : List (Text × ℤ)) : List Signal := outage.map (fun error => .failure error.1 error.2)

theorem report_failures (outage : List (Text × ℤ)) : report w .new (failures outage) =
    ((shown outage).map (fun e => failureLine w e.1 e.2.2), ⟨!outage.isEmpty, throttled outage⟩) := by
  induction outage using List.reverseRecOn with
  | nil => rfl
  | append_singleton outage error ih =>
    obtain ⟨key, now⟩ := error
    have hsnoc : failures (outage ++ [(key, now)]) = failures outage ++ [.failure key now] := by simp [failures]
    rw [hsnoc, report_append, ih, shown_snoc, throttled_snoc]
    simp only [report, respond, reportFailure, shouldEmit]
    split_ifs <;> simp [shownEntry]

def printed (w : Wording) (before signals : List Signal) : List LogLine := (report w (report w .new before).2 signals).1

theorem outages_reported (w : Wording) {before : List Signal} (hbefore : before = [] ∨ before.getLast? = some .success) :
    printed w before [.success] = [] ∧
    ∀ error rest, ∃ (logged : List (Text × ℤ × ℕ)) (n : ℕ),
      printed w before (failures (error :: rest) ++ [.success]) =
        logged.map (fun e => failureLine w e.1 e.2.2) ++ [recoveryLine w n] ∧
      (error :: rest).length = logged.length + (logged.map (fun e => e.2.2)).sum + n ∧
      logged.head? = some (error.1, error.2, 0) ∧
      (logged.map (fun e => (e.1, e.2.1))).Sublist (error :: rest) ∧
      (∀ e ∈ error :: rest, ∃ f ∈ logged, f.1 = e.1) ∧
      logged.Pairwise (fun e f => e.1 = f.1 → logIntervalMs ≤ f.2.1 - e.2.1) := by
  have hnew : (report w .new before).2 = .new := report_recovered hbefore
  refine ⟨by rw [printed, hnew]; rfl, fun error rest => ?_⟩
  obtain ⟨haccounts, -⟩ := accounts (error :: rest)
  refine ⟨shown (error :: rest), total (throttled (error :: rest)).suppressedCounts, ?_, haccounts.count, haccounts.first,
    haccounts.sublist, haccounts.told, haccounts.spaced⟩
  rw [printed, hnew, report_append, report_failures]
  rfl

theorem outages_reported_sample :
    let outage := [("ECONNREFUSED".toList, 0), ("ECONNREFUSED".toList, 1000), ("ETIMEDOUT".toList, 1500),
      ("ECONNREFUSED".toList, 31000)]
    (printed WebhookEventsWorkerService.wording [.success] (failures outage ++ [.success])).length = 4 ∧
      ∃ (logged : List (Text × ℤ × ℕ)) (n : ℕ),
        printed WebhookEventsWorkerService.wording [.success] (failures outage ++ [.success]) =
          logged.map (fun e => failureLine WebhookEventsWorkerService.wording e.1 e.2.2) ++
            [recoveryLine WebhookEventsWorkerService.wording n] ∧
        4 = logged.length + (logged.map (fun e => e.2.2)).sum + n := by
  refine ⟨by decide, ?_⟩
  obtain ⟨logged, n, hprinted, hcount, -⟩ := (@outages_reported WebhookEventsWorkerService.wording
    [.success] (.inr rfl)).2 ("ECONNREFUSED".toList, 0) _
  exact ⟨logged, n, hprinted, hcount⟩

end Lines

end OutageReports

end EventGateway

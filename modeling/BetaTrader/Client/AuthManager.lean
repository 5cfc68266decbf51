import BetaTrader.Client.FixClientSession
import BetaTrader.Lib.Run

/-!
# Logins

`AuthManager` keeps one request that waits for its answer.  A later request takes its
place, and the callback of the earlier one is not called.  An answer is told from those to
other requests by its field 923, and one without that field passes for the answer to
whichever request is waiting.
-/

namespace BetaTrader

namespace Client

open FixUtils OutboundMessageBuilder

/-! ## The manager -/

/-- The callbacks are named by the elements of `κ`. -/
structure AuthManager (κ : Type) where
  mSession : Option FixClientSession
  mPendingCallback : Option κ
  mPendingReqId : Message

inductive AuthEffect (κ : Type) where
  | session (effect : FixClientEffect)
  | callback (callback : κ) (success : Bool) (message : Message)

/-- `now` is the count of the clock. -/
def requestId (now : Timestamp) : Message := "REQ_".toList ++ Decimal.intText now

namespace AuthManager

variable {κ : Type} (manager : AuthManager κ)

/-- The clock is read for the id and for the header. -/
def authenticate (username password : Message) (callback : Option κ)
    (now sendingTime : Timestamp) : AuthManager κ × List (AuthEffect κ) :=
  match manager.mSession.filter fun session => session.state = .active with
  | none =>
      (manager, callback.toList.map fun callback =>
        .callback callback false "Session not active".toList)
  | some session =>
      let reqId := requestId now
      let (session, effects) := session.sendMessage "BE".toList
        (ofFields [(923, reqId), (924, ['1']), (553, username), (554, password)]) sendingTime
      ({ mSession := some session, mPendingCallback := callback, mPendingReqId := reqId },
        effects.map .session)

/-- The message is a `UserResponse` and not the answer to another request. -/
def Takes (map : TagMap) : Prop :=
  map 35 = some "BF".toList ∧ ∀ reqId ∈ map 923, reqId = manager.mPendingReqId

instance (map : TagMap) : Decidable (manager.Takes map) := inferInstanceAs (Decidable (_ ∧ _))

def handleFields (map : TagMap) : Bool × AuthManager κ × List (AuthEffect κ) :=
  if map 35 ≠ some "BF".toList then (false, manager, [])
  else if ∃ reqId ∈ map 923, reqId ≠ manager.mPendingReqId then (false, manager, [])
  else
    let success : Bool := map 926 = some "1".toList
    let textMsg := (map 927).getD []
    match manager.mPendingCallback with
    | none => (true, manager, [])
    | some callback =>
        (true, { manager with mPendingCallback := none, mPendingReqId := [] },
          [.callback callback success textMsg])

/-- Has the message been handled?  `none` stands for an exception. -/
def handleMessage (rawFix : Message) : Option (Bool × AuthManager κ × List (AuthEffect κ)) :=
  (splitToMap rawFix soh).map manager.handleFields

variable {manager} {map : TagMap}

theorem handleFields_of_not_takes (h : ¬manager.Takes map) :
    manager.handleFields map = (false, manager, []) := by
  rw [handleFields]
  by_cases htype : map 35 = some "BF".toList
  · rw [if_neg (not_not.mpr htype), if_pos]
    simpa [Takes, htype] using h
  · rw [if_pos htype]

theorem handleFields_of_takes (h : manager.Takes map) :
    manager.handleFields map =
      (true,
        if manager.mPendingCallback.isSome then
          { manager with mPendingCallback := none, mPendingReqId := [] }
        else manager,
        manager.mPendingCallback.toList.map fun callback =>
          .callback callback (map 926 = some "1".toList) ((map 927).getD [])) := by
  rw [handleFields, if_neg (not_not.mpr h.1), if_neg (by simpa using h.2)]
  cases manager.mPendingCallback with
  | none => rfl
  | some callback => rfl

end AuthManager

/-! ## Runs -/

inductive AuthCall where
  | authenticate (username password : Message) (hasCallback : Bool) (now sendingTime : Timestamp)
  | handleMessage (rawFix : Message)
  /-- Others change the session. -/
  | useSession (session : FixClientSession)

/-- The id that a call of `authenticate` gives to its request. -/
def AuthCall.requestId? : AuthCall → Option Message
  | .authenticate _ _ _ now _ => some (requestId now)
  | _ => none

/-- A call of a callback. -/
structure Firing where
  /-- The number of the call of `authenticate` that was given the callback. -/
  callback : ℕ
  /-- The call in which the callback is called. -/
  call : AuthCall
  success : Bool
  message : Message

/-- The manager, whose callbacks are named by the numbers of the calls that give them. -/
structure AuthRun where
  manager : AuthManager ℕ
  /-- The calls so far. -/
  calls : List AuthCall
  fired : List Firing

namespace AuthRun

def init (session : Option FixClientSession) : AuthRun := ⟨⟨session, none, []⟩, [], []⟩

variable (r : AuthRun)

/-- An exception leaves the manager as it is. -/
def serve : AuthCall → AuthManager ℕ × List (AuthEffect ℕ)
  | .authenticate username password hasCallback now sendingTime =>
      r.manager.authenticate username password (if hasCallback then some r.calls.length else none)
        now sendingTime
  | .handleMessage rawFix => ((r.manager.handleMessage rawFix).map Prod.snd).getD (r.manager, [])
  | .useSession session =>
      ({ r.manager with mSession := r.manager.mSession.map fun _ => session }, [])

def firings (call : AuthCall) : List Firing :=
  (r.serve call).2.filterMap fun
    | .session _ => none
    | .callback callback success message => some ⟨callback, call, success, message⟩

def step (call : AuthCall) : AuthRun where
  manager := (r.serve call).1
  calls := r.calls ++ [call]
  fired := r.fired ++ r.firings call

/-- The message is the answer to the request and lets the user in. -/
def Grants (rawFix reqId : Message) : Prop :=
  ∃ map, splitToMap rawFix soh = some map ∧
    map 35 = some "BF".toList ∧ map 923 = some reqId ∧ map 926 = some "1".toList

/-- The callback is called because of the answer to the request that it came with. -/
def Own (firing : Firing) : Prop :=
  ∃ reqId rawFix, r.calls[firing.callback]?.bind AuthCall.requestId? = some reqId ∧
    firing.call = .handleMessage rawFix ∧ Grants rawFix reqId

/-- No callback is called twice, and none is told of a success that is not its own. -/
structure Attributed : Prop where
  once : (r.fired.map (·.callback)).Nodup
  own : ∀ firing ∈ r.fired, firing.success = true → r.Own firing

/-- A `UserResponse` that lets a user in while a callback is waiting has a field 923. -/
def NamesRequest : AuthCall → Prop
  | .handleMessage rawFix =>
      r.manager.mPendingCallback.isSome → ∀ map ∈ splitToMap rawFix soh,
        map 35 = some "BF".toList → map 926 = some "1".toList → (map 923).isSome
  | _ => True

/-- The callbacks that have been called and the one that is waiting. -/
def callbacks : List ℕ := r.fired.map (·.callback) ++ r.manager.mPendingCallback.toList

structure Sound : Prop where
  nodup : r.callbacks.Nodup
  lt : ∀ callback ∈ r.callbacks, callback < r.calls.length
  pending : ∀ callback ∈ r.manager.mPendingCallback,
    r.calls[callback]?.bind AuthCall.requestId? = some r.manager.mPendingReqId

variable {r}

/-- The session is not active, and the callback is called, or the request is made. -/
theorem serve_authenticate (username password : Message) (hasCallback : Bool)
    (now sendingTime : Timestamp) :
    let call := AuthCall.authenticate username password hasCallback now sendingTime
    ((r.serve call).1 = r.manager ∧
        r.firings call =
          if hasCallback then [⟨r.calls.length, call, false, "Session not active".toList⟩]
          else []) ∨
      ((r.serve call).1.mPendingCallback = (if hasCallback then some r.calls.length else none) ∧
        (r.serve call).1.mPendingReqId = requestId now ∧ r.firings call = []) := by
  simp only [firings, serve, AuthManager.authenticate]
  cases r.manager.mSession.filter fun session => session.state = .active with
  | none =>
      refine Or.inl ⟨rfl, ?_⟩
      cases hasCallback <;> rfl
  | some session =>
      refine Or.inr ⟨rfl, rfl, ?_⟩
      simp [List.filterMap_map]

/-- Nothing happens, or the message is taken for the answer to the pending request. -/
theorem serve_handleMessage (rawFix : Message) :
    let call := AuthCall.handleMessage rawFix
    ((r.serve call).1 = r.manager ∧ r.firings call = [] ∧
        ∀ map ∈ splitToMap rawFix soh, r.manager.Takes map → r.manager.mPendingCallback = none) ∨
      ∃ map callback, splitToMap rawFix soh = some map ∧ r.manager.Takes map ∧
        r.manager.mPendingCallback = some callback ∧
        (r.serve call).1.mPendingCallback = none ∧
        r.firings call =
          [⟨callback, call, map 926 = some "1".toList, (map 927).getD []⟩] := by
  simp only [firings, serve, AuthManager.handleMessage, Option.map_map]
  cases splitToMap rawFix soh with
  | none => exact Or.inl ⟨rfl, rfl, fun map hmap => by cases hmap⟩
  | some map =>
      by_cases htakes : r.manager.Takes map
      · cases hpending : r.manager.mPendingCallback with
        | none =>
            left
            simp [AuthManager.handleFields_of_takes htakes, hpending]
        | some callback =>
            refine Or.inr ⟨map, callback, rfl, htakes, rfl, ?_⟩
            simp [AuthManager.handleFields_of_takes htakes, hpending]
      · left
        simp [AuthManager.handleFields_of_not_takes htakes, htakes]

/-- A call brings at most its own callback, and each one is called or waits but once. -/
theorem callbacks_step (call : AuthCall) :
    (r.step call).callbacks.Subperm (r.callbacks ++ [r.calls.length]) := by
  cases call with
  | authenticate username password hasCallback now sendingTime =>
      rcases serve_authenticate (r := r) username password hasCallback now sendingTime with
        ⟨hmanager, hfirings⟩ | ⟨hpending, -, hfirings⟩
      · simp only [callbacks, step, hmanager, hfirings]
        cases hasCallback with
        | false =>
            refine List.Sublist.subperm ?_
            simp
        | true =>
            refine List.Perm.subperm ?_
            simp only [if_true, List.map_append, List.append_assoc]
            exact List.perm_append_comm.append_left _
      · simp only [callbacks, step, hpending, hfirings]
        refine List.Sublist.subperm ?_
        cases hasCallback with
        | false => simp
        | true => simp
  | handleMessage rawFix =>
      refine List.Sublist.subperm ?_
      rcases serve_handleMessage (r := r) rawFix with
        ⟨hmanager, hfirings, -⟩ | ⟨map, callback, -, -, hcallback, hpending, hfirings⟩
      · simp [callbacks, step, hmanager, hfirings]
      · simp [callbacks, step, hcallback, hpending, hfirings]
  | useSession session =>
      refine List.Sublist.subperm ?_
      simp [callbacks, step, serve, firings]

theorem sound_init (session : Option FixClientSession) : (init session).Sound where
  nodup := List.nodup_nil
  lt := by simp [callbacks, init]
  pending := by simp [init]

theorem getElem?_calls_step (call : AuthCall) {callback : ℕ} (h : callback < r.calls.length) :
    (r.step call).calls[callback]? = r.calls[callback]? :=
  List.getElem?_append_left h

theorem Sound.step (h : r.Sound) (call : AuthCall) : (r.step call).Sound where
  nodup := by
    obtain ⟨callbacks, hperm, hsublist⟩ := callbacks_step (r := r) call
    refine hperm.nodup_iff.mp (hsublist.nodup ?_)
    refine List.nodup_append.mpr ⟨h.nodup, List.nodup_singleton _, ?_⟩
    rintro callback hcallback _ hlength rfl
    rw [List.mem_singleton] at hlength
    exact (h.lt callback hcallback).ne hlength
  lt callback hcallback := by
    rw [AuthRun.step, List.length_append, List.length_singleton, Nat.lt_succ_iff]
    rcases List.mem_append.mp ((callbacks_step call).subset hcallback) with hold | hnew
    · exact (h.lt callback hold).le
    · exact (List.mem_singleton.mp hnew).le
  pending := by
    -- the request that waited before still waits for the same id
    have hkept : (r.serve call).1.mPendingCallback = r.manager.mPendingCallback →
        (r.serve call).1.mPendingReqId = r.manager.mPendingReqId →
        ∀ callback ∈ (r.serve call).1.mPendingCallback,
          (r.step call).calls[callback]?.bind AuthCall.requestId? =
            some (r.serve call).1.mPendingReqId := by
      intro hpending hreqId callback hcallback
      rw [hpending] at hcallback
      rw [hreqId, getElem?_calls_step call (h.lt callback ?_)]
      · exact h.pending callback hcallback
      · exact List.mem_append_right _ (Option.mem_toList.mpr hcallback)
    cases call with
    | authenticate username password hasCallback now sendingTime =>
        rcases serve_authenticate (r := r) username password hasCallback now sendingTime with
          ⟨hmanager, -⟩ | ⟨hpending, hreqId, -⟩
        · exact hkept (by rw [hmanager]) (by rw [hmanager])
        · intro callback hcallback
          rw [AuthRun.step, hpending] at hcallback
          obtain ⟨-, rfl⟩ : hasCallback = true ∧ r.calls.length = callback := by
            simpa using hcallback
          simp only [AuthRun.step, hreqId]
          simp [AuthCall.requestId?]
    | handleMessage rawFix =>
        rcases serve_handleMessage (r := r) rawFix with
          ⟨hmanager, -⟩ | ⟨-, -, -, -, -, hpending, -⟩
        · exact hkept (by rw [hmanager]) (by rw [hmanager])
        · intro callback hcallback
          rw [AuthRun.step, hpending] at hcallback
          cases hcallback
    | useSession session => exact hkept rfl rfl

theorem own_step_iff (h : r.Sound) (call : AuthCall) {firing : Firing} (hmem : firing ∈ r.fired) :
    (r.step call).Own firing ↔ r.Own firing := by
  have hlt := h.lt _ (List.mem_append_left _ (List.mem_map_of_mem hmem))
  rw [Own, Own, getElem?_calls_step call hlt]

/-- The successes that a call tells are those of the requests exactly if the call is no
`UserResponse` without a field 923. -/
theorem own_firings_iff (h : r.Sound) (call : AuthCall) :
    (∀ firing ∈ r.firings call, firing.success = true → (r.step call).Own firing) ↔
      r.NamesRequest call := by
  cases call with
  | authenticate username password hasCallback now sendingTime =>
      refine iff_of_true (fun firing hfiring hsuccess => ?_) trivial
      rcases serve_authenticate (r := r) username password hasCallback now sendingTime with
        ⟨-, hfirings⟩ | ⟨-, -, hfirings⟩
      · rw [hfirings] at hfiring
        cases hasCallback with
        | false => cases hfiring
        | true =>
            rw [if_pos rfl, List.mem_singleton] at hfiring
            simp [hfiring] at hsuccess
      · rw [hfirings] at hfiring
        cases hfiring
  | handleMessage rawFix =>
      rcases serve_handleMessage (r := r) rawFix with
        ⟨-, hfirings, hnone⟩ | ⟨map, callback, hmap, htakes, hcallback, -, hfirings⟩
      · refine iff_of_true (fun firing hfiring => ?_) fun hpending map hmap htype _ => ?_
        · rw [hfirings] at hfiring
          cases hfiring
        · -- only the id can have told the message from the answer
          by_contra hreqId
          rw [Option.not_isSome_iff_eq_none] at hreqId
          have htakes : r.manager.Takes map := ⟨htype, by simp [hreqId]⟩
          rw [hnone map hmap htakes] at hpending
          cases hpending
      · have hlt : callback < r.calls.length :=
          h.lt callback (List.mem_append_right _ (Option.mem_toList.mpr hcallback))
        have hgrants : ∀ reqId, Grants rawFix reqId ↔
            map 923 = some reqId ∧ map 926 = some "1".toList := by
          intro reqId
          simp [Grants, hmap, htakes.1]
        have hnames : r.NamesRequest (.handleMessage rawFix) ↔
            (map 926 = some "1".toList → map 923 = some r.manager.mPendingReqId) := by
          simp only [NamesRequest, hcallback, Option.isSome_some, hmap, Option.mem_some_iff,
            forall_eq', htakes.1, forall_const]
          refine imp_congr_right fun _ => ⟨fun hsome => ?_, fun hreqId => by simp [hreqId]⟩
          obtain ⟨reqId, hreqId⟩ := Option.isSome_iff_exists.mp hsome
          rw [hreqId, htakes.2 reqId hreqId]
        rw [hfirings, hnames]
        simp only [List.mem_singleton, forall_eq, decide_eq_true_eq, Own,
          getElem?_calls_step _ hlt, h.pending callback hcallback]
        refine imp_congr_right fun hsuccess => ?_
        simp [hgrants, hsuccess]
  | useSession session => exact iff_of_true (fun firing hfiring => by cases hfiring) trivial

theorem Sound.once (h : r.Sound) : (r.fired.map (·.callback)).Nodup :=
  h.nodup.sublist (List.sublist_append_left _ _)

theorem attributed_step_iff (h : r.Sound) (call : AuthCall) :
    (r.step call).Attributed ↔ r.Attributed ∧ r.NamesRequest call := by
  have hfired : (r.step call).fired = r.fired ++ r.firings call := rfl
  rw [← own_firings_iff h call]
  constructor
  · rintro ⟨-, hown⟩
    rw [hfired, List.forall_mem_append] at hown
    refine ⟨⟨h.once, fun firing hfiring hsuccess => ?_⟩, hown.2⟩
    exact (own_step_iff h call hfiring).mp (hown.1 firing hfiring hsuccess)
  · rintro ⟨⟨-, hown⟩, hfirings⟩
    refine ⟨(h.step call).once, ?_⟩
    rw [hfired, List.forall_mem_append]
    refine ⟨fun firing hfiring hsuccess => ?_, hfirings⟩
    exact (own_step_iff h call hfiring).mpr (hown firing hfiring hsuccess)

def run (session : Option FixClientSession) (calls : List AuthCall) : AuthRun :=
  calls.foldl step (init session)

/-- The successes are attributed exactly if no `UserResponse` that lets a user in comes
without a field 923 while a callback is waiting. -/
theorem attributed_iff (session : Option FixClientSession) (calls : List AuthCall) :
    (run session calls).Attributed ↔ TotalRun.Meets step NamesRequest (init session) calls := by
  have hinit : (init session).Attributed :=
    ⟨List.nodup_nil, fun firing hfiring => by cases hfiring⟩
  have hany : TotalRun.Meets step (fun _ _ => True) (init session) calls :=
    TotalRun.meets_of_forall fun _ _ => trivial
  refine TotalRun.foldl_exact_of Sound (fun r call hsound _ => ?_) (sound_init session) hinit hany
  exact ⟨hsound.step call, attributed_step_iff hsound call⟩

def sampleSession : FixClientSession where
  senderCompId := "CLIENT".toList
  targetCompId := "SERVER".toList
  state := .active
  seqStore := ⟨2, 2⟩
  hasOrderIntentCallback := false

/-- An answer that does not say which request it is to. -/
def sampleAnswer : Message :=
  ofFields [(8, "FIX.4.4".toList), (9, "24".toList), (35, "BF".toList), (926, "1".toList),
    (927, "Welcome".toList), (10, "232".toList)]

def sampleCalls : List AuthCall :=
  [.authenticate "alice".toList "secret".toList true 1700000000000000000 1700000000000000001,
    .authenticate "bob".toList "guess".toList true 1700000001000000000 1700000001000000001,
    .handleMessage sampleAnswer]

/-- The later callback is told of a success that need not be its own. -/
theorem not_attributed_unnamed :
    (sampleCalls.filterMap AuthCall.requestId?).Nodup ∧
      ¬(run (some sampleSession) sampleCalls).Attributed := by
  refine ⟨by decide +kernel, ?_⟩
  rintro ⟨-, hown⟩
  have hfired : (run (some sampleSession) sampleCalls).fired =
      [⟨1, .handleMessage sampleAnswer, true, "Welcome".toList⟩] := by rfl
  have hnone : (splitToMap sampleAnswer soh).map (· 923) = some none := by decide +kernel
  obtain ⟨reqId, rawFix, -, hcall, map, hmap, -, hreqId, -⟩ :=
    hown _ (hfired ▸ List.mem_singleton_self _) rfl
  cases hcall
  simp [hmap, hreqId] at hnone

end AuthRun

end Client

end BetaTrader

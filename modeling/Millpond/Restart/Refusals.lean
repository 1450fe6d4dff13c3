import Millpond.Hoglake.Publication
import Millpond.Restart.Lifetimes

set_option autoImplicit false

/-! # What becomes of a request that was refused

`_commit_prepared` holds a payload for as long as nobody has judged it, and lets it go once the server
has: `_is_answered_refusal` names the statuses of a judgement, and the reused key and the moved
destination have arms of their own. A payload that is let go is built anew by the next write; one that
is held is sent again as it is. -/

namespace Millpond.Restart

open Prog Hoglake

variable {ρ V : Type}

/-! ## Responses -/

/-- A response that is a refusal: no success, no 5xx, no 408 and no 429. -/
def refuses (e : HoglakeError) : Bool :=
  e.statusCode.any fun status =>
    !(decide (200 ≤ status ∧ status < 300) || decide (500 ≤ status ∧ status < 600) ||
      decide (status ∈ retryableClientStatus))

/-- A 5xx, a 408 or a 429. -/
def postpones (e : HoglakeError) : Bool :=
  e.statusCode.any fun status =>
    decide (500 ≤ status ∧ status < 600) || decide (status ∈ retryableClientStatus)

/-- The predicates of `_commit_prepared` that make it let the payload go. -/
def letsGo (e : HoglakeError) : Bool :=
  e.isReusedKey || e.isDestinationMoved || e.isAnsweredRefusal

/-- How the commit of the held payload ends, `none` for a success. -/
def commitAnswer (payload : Payload) (s : St ρ) : Option Error :=
  match commitPreparedCall payload s.sink.table (s.send payload) with
  | .ok _ _ => none
  | .error r _ => some r.error

/-! ## The property -/

/-- What happens between two writes of the retry loop. -/
def idle : Call ρ V → Bool
  | .resetCaches => true
  | .others _ => true
  | _ => false

/-- The batch gets past the first lines of `write`. -/
def isWritten (flush : Flush ρ V) : Bool :=
  !(flush.batch.names.any fun name => decide (name ∈ reservedColumns)) && !isSkipped flush.batch

/-- The request was prepared among these events, for a shape that was read among them. -/
def PreparedIn (events : List Event) (payload : Payload) : Prop :=
  ∃ info declared, .prepared payload info ∈ events ∧ .adopted info declared ∈ events

variable (cfg : SinkConfig) (be : Backend ρ V)

/-- The payload is gone, and the next write builds what it sends from a read of the table. -/
def Forgotten (s : St ρ) : Prop :=
  s.sink.prepared = none ∧ ∀ calls s₁ (flush : Flush ρ V), (∀ call ∈ calls, idle call = true) →
    run cfg be s calls = some s₁ → isWritten flush = true →
    write cfg be flush s₁ = (do buildPayload cfg be flush; commitPrepared) s₁ ∧
    ∀ s₂, perform cfg be s₁ (.write flush) = some s₂ →
      ∃ events, s₂.log = events ++ s₁.log ∧ ∀ sent, .sent sent ∈ events → PreparedIn events sent

/-- The payload is held as it was, and the next write of its identity sends it, and nothing else. -/
def Retained (payload : Payload) (s s' : St ρ) : Prop :=
  s'.sink.held = s.sink.held ∧ ∀ calls s₁ (flush : Flush ρ V), (∀ call ∈ calls, idle call = true) →
    run cfg be s' calls = some s₁ → flush.identity.isSome = true →
    flush.identity = s.sink.preparedOffsets → isWritten flush = true →
    write cfg be flush s₁ = commitPrepared s₁ ∧ s₁.sink.prepared = some payload ∧
      ∃ events, (final (write cfg be flush) s₁).log = events ++ .sent payload :: s₁.log ∧
        ∀ sent, .sent sent ∉ events

/-- A refusal is answered by forgetting the payload, anything undecided by retaining it. -/
structure Settles (payload : Payload) (s : St ρ) : Prop where
  refused : ∀ e, commitAnswer payload s = some (.hoglake e) → refuses e = true →
    Forgotten cfg be (final commitPrepared s)
  undecided : commitAnswer payload s = some .transport ∨
      (∃ e, commitAnswer payload s = some (.hoglake e) ∧ postpones e = true) →
    Retained cfg be payload s (final commitPrepared s)

/-- A refusal is one of those that let the payload go, and no 5xx, 408 or 429 reads like one. -/
def Recognized (e : HoglakeError) : Prop :=
  (refuses e = true → letsGo e = true) ∧ (postpones e = true → letsGo e = false)

/-! ## Events without a request -/

/-- New events, none of them a request that goes out. -/
def Silent (s s' : St ρ) : Prop := ∃ events, s'.log = events ++ s.log ∧ ∀ sent, .sent sent ∉ events

theorem Silent.of_eq {s s' : St ρ} (h : s'.log = s.log) : Silent s s' := ⟨[], h, fun _ h => nomatch h⟩

theorem Silent.trans {s s' s'' : St ρ} (h : Silent s s') (h' : Silent s' s'') : Silent s s'' := by
  obtain ⟨events, hlog, hnone⟩ := h
  obtain ⟨events', hlog', hnone'⟩ := h'
  refine ⟨events' ++ events, by rw [hlog', hlog, List.append_assoc], fun sent hsent => ?_⟩
  exact (List.mem_append.1 hsent).elim (hnone' sent) (hnone sent)

theorem Silent.cons {s s' : St ρ} {e : Event} (h : s'.log = e :: s.log)
    (he : ∀ sent, e ≠ .sent sent) : Silent s s' :=
  ⟨[e], h, fun sent hsent => he sent (List.mem_singleton.1 hsent).symm⟩

theorem Silent.report (s : St ρ) (uris : List Uri) (reason : OrphanReason) :
    Silent s (s.report uris reason) := by
  unfold St.report
  split
  · exact .of_eq rfl
  · exact .cons rfl fun _ h => by cases h

theorem Silent.upload (s : St ρ) (info : TableInfo) (n : ℕ) (objects : List (Uri × List ρ)) :
    Silent s (s.upload info n objects) := by
  by_cases hempty : objects.isEmpty = true
  · exact .of_eq (if_pos hempty)
  · exact .cons (if_neg hempty) fun _ h => by cases h

/-! ## The answer and the payload -/

variable {cfg be} {payload : Payload}

/-- The client's part of a commit touches neither the payload nor the log. -/
def SameHold (s s' : St ρ) : Prop := s'.sink.held = s.sink.held ∧ s'.log = s.log

theorem SameHold.trans {s s' s'' : St ρ} (h : SameHold s s') (h' : SameHold s' s'') : SameHold s s'' :=
  ⟨h'.1.trans h.1, h'.2.trans h.2⟩

theorem dropCache_sameHold (drops hasTable : Bool) :
    Within SameHold (dropCache drops hasTable : M ρ PUnit) := by
  intro s
  refine wp_dropCache drops hasTable fun cache _ => ?_
  exact ⟨rfl, rfl⟩

theorem answerCommit_sameHold (turn : Turn) (payload : Payload) (hasTable : Bool)
    (refusal : Option Refusal) :
    Within SameHold (answerCommit turn payload hasTable refusal : M ρ PUnit) := by
  intro s
  unfold answerCommit
  simp only [wp_bind, wp_get, wp_onWorld]
  cases (s.world.net.server.commit refusal payload).1 with
  | none => exact ⟨rfl, rfl⟩
  | some e =>
      simp only [wp_bind, wp_raise]
      exact wp_mono (dropCache_sameHold _ _ _) (fun _ _ h => h) (fun _ _ h => h)

theorem commitPreparedCall_sameHold (payload : Payload) (hasTable : Bool) :
    Within SameHold (commitPreparedCall payload hasTable : M ρ PUnit) := by
  intro s
  unfold commitPreparedCall
  simp only [wp_bind, wp_takeTurn]
  have hturn : SameHold s (s.moved s.world.nextTurn (noteResponse s.turn s.sink.retryAfter)) :=
    ⟨rfl, rfl⟩
  have hanswer : ∀ refusal, wp (answerCommit s.turn payload hasTable refusal)
      (fun _ => SameHold s) (fun _ => SameHold s)
      (s.moved s.world.nextTurn (noteResponse s.turn s.sink.retryAfter)) := fun refusal =>
    wp_mono (answerCommit_sameHold _ _ _ refusal _) (fun _ _ h => hturn.trans h)
      (fun _ _ h => hturn.trans h)
  cases s.turn.fate with
  | answered => exact hanswer none
  | refused e => exact hanswer (Refusal.of e)
  | lost handling => exact ⟨rfl, rfl⟩
  | failed e handling =>
      simp only [wp_bind, wp_onWorld, wp_raise]
      exact wp_mono (dropCache_sameHold _ _ _) (fun _ _ h => h) (fun _ _ h => h)
  | killed handling => exact ⟨rfl, rfl⟩

/-- The rule for `_commit_prepared`: the call, and the arm of its answer. -/
theorem wp_commitPrepared {Q : ℕ → St ρ → Prop} {E : Raised → St ρ → Prop} {s : St ρ}
    (held : s.sink.prepared = some payload)
    (hanswered : ∀ s₁, commitAnswer payload s = none → SameHold (s.send payload) s₁ →
      wp commitAnswered Q E s₁)
    (hrefused : ∀ e s₁, commitAnswer payload s = some (.hoglake e) → SameHold (s.send payload) s₁ →
      wp (commitRefused payload e) Q E s₁)
    (hother : ∀ r s₁, commitAnswer payload s = some r.error → (∀ e, r.error ≠ .hoglake e) →
      SameHold (s.send payload) s₁ → E r s₁) : wp commitPrepared Q E s := by
  unfold commitPrepared
  simp only [wp_bind, wp_get, held]
  show wp _ _ _ (s.send payload)
  rw [wp_tryHoglake]
  simp only [wp_bind, wp_pure]
  have hsame := commitPreparedCall_sameHold payload s.sink.table (s.send payload)
  show wp (commitPreparedCall payload s.sink.table) _ _ (s.send payload)
  cases hcall : commitPreparedCall payload s.sink.table (s.send payload) with
  | ok u s₁ =>
      have hanswer : commitAnswer payload s = none := by
        unfold commitAnswer
        rw [hcall]
      exact (wp_of_ok hcall).2 (hanswered s₁ hanswer ((wp_of_ok hcall).1 hsame))
  | error r s₁ =>
      have hanswer : commitAnswer payload s = some r.error := by
        unfold commitAnswer
        rw [hcall]
      have hsame := (wp_of_error hcall).1 hsame
      rw [wp_of_error hcall]
      cases hr : r.error with
      | hoglake e => exact hrefused e s₁ (hanswer.trans (congrArg some hr)) hsame
      | _ => exact hother r s₁ hanswer (fun e h => by cases hr.symm.trans h) hsame

/-! ## The arms -/

/-- The state after `_discard_prepared` of the payload held. -/
def discarded (s : St ρ) (payload : Payload) (reason : OrphanReason) : St ρ :=
  ((s.note (.discarded payload reason (s.world.atRisk payload))).report payload.uris reason).clear

theorem discarded_liveInfo (s : St ρ) (payload : Payload) (reason : OrphanReason) :
    (discarded s payload reason).sink.liveInfo = s.sink.liveInfo := by
  unfold discarded St.clear
  simp only [St.report_sink]
  rfl

theorem silent_discarded (s : St ρ) (payload : Payload) (reason : OrphanReason) :
    Silent s (discarded s payload reason) := by
  have hnote : Silent s (s.note (.discarded payload reason (s.world.atRisk payload))) :=
    .cons rfl fun _ h => by cases h
  exact hnote.trans ((Silent.report _ _ _).trans (.of_eq rfl))

theorem wp_discardPrepared (reason : OrphanReason) {s : St ρ} (held : s.sink.prepared = some payload)
    {Q : PUnit → St ρ → Prop} {E : Raised → St ρ → Prop} :
    wp (discardPrepared reason) Q E s ↔ Q ⟨⟩ (discarded s payload reason) := by
  unfold discardPrepared clearPrepared
  simp only [wp_bind, wp_get, held, wp_emit, wp_countOrphans, wp_onSink]
  exact Iff.rfl

/-- What a refusal leaves: no cached shape, the payload if nothing lets it go, and no new request. -/
structure Answered (e : HoglakeError) (s s' : St ρ) : Prop where
  prepared : letsGo e = true → s'.sink.prepared = none
  held : letsGo e = false → s'.sink.held = s.sink.held
  liveInfo : s'.sink.liveInfo = none
  silent : Silent s s'

theorem Answered.of_gone {e : HoglakeError} {s s₁ s' : St ρ} (hgo : letsGo e = true)
    (hs₁ : Silent s s₁) (hprepared : s'.sink.prepared = none) (hlive : s'.sink.liveInfo = none)
    (hs' : Silent s₁ s') : Answered e s s' :=
  ⟨fun _ => hprepared, fun h => absurd (hgo.symm.trans h) (by simp), hlive, hs₁.trans hs'⟩

/-- Whether the payload goes depends on the three predicates alone. -/
theorem commitRefused_answered {s : St ρ} (held : s.sink.prepared = some payload) (e : HoglakeError) :
    wp (commitRefused payload e) (fun _ => Answered e s)
      (fun r s' => Answered e s s' ∧ r.error ≠ .killed) s := by
  unfold commitRefused
  rw [wp_bind]
  show wp dropCachedShape _ _ (s.withCache s.world.handle.cache)
  rw [wp_dropCachedShape]
  have hdrop : Silent s (s.dropShape s.world.handle.cache) := .cons rfl fun _ h => by cases h
  have held' : (s.dropShape s.world.handle.cache).sink.prepared = some payload := held
  by_cases hreused : e.isReusedKey = true
  · rw [if_pos hreused]
    have hgo : letsGo e = true := by simp [letsGo, hreused]
    unfold acceptAlreadyPublished clearPrepared
    simp only [wp_bind, wp_emit, wp_countOrphans, wp_onSink, wp_pure]
    refine .of_gone hgo hdrop rfl ?_ ?_
    · simp only [St.report_sink]
      rfl
    · have hnote : Silent (s.dropShape s.world.handle.cache)
          ((s.dropShape s.world.handle.cache).note (.alreadyPublished payload)) :=
        .cons rfl fun _ h => by cases h
      exact hnote.trans ((Silent.report _ _ _).trans (.of_eq rfl))
  · rw [if_neg hreused]
    by_cases hmoved : e.isDestinationMoved = true
    · rw [if_pos hmoved]
      have hgo : letsGo e = true := by simp [letsGo, hmoved]
      unfold destinationMoved
      simp only [wp_bind, wp_raise]
      rw [wp_discardPrepared _ held']
      have hgone := silent_discarded (s.dropShape s.world.handle.cache) payload (movedReason e)
      unfold forgetDestination
      rw [wp_ite]
      constructor
      · intro _
        exact ⟨.of_gone hgo (hdrop.trans hgone) rfl rfl (.cons rfl fun _ h => by cases h), nofun⟩
      · intro _
        exact ⟨.of_gone hgo (hdrop.trans hgone) rfl rfl (.cons rfl fun _ h => by cases h), nofun⟩
    · rw [if_neg hmoved]
      simp only [wp_bind, wp_raise]
      unfold discardRefused
      by_cases hanswered : e.isAnsweredRefusal = true
      · have hgo : letsGo e = true := by simp [letsGo, hanswered]
        rw [if_pos hanswered, wp_discardPrepared _ held']
        exact ⟨.of_gone hgo hdrop rfl (discarded_liveInfo _ _ _) (silent_discarded _ _ _), nofun⟩
      · have hstay : letsGo e = false := by simp [letsGo, hreused, hmoved, hanswered]
        rw [if_neg hanswered]
        exact ⟨⟨fun h => absurd (hstay.symm.trans h) (by simp), fun _ => rfl, rfl, hdrop⟩, nofun⟩

/-! ## Between two writes -/

/-- Nothing happens to a payload that is held, and no shape is cached. -/
theorem idle_run {calls : List (Call ρ V)} {s s₁ : St ρ} (hidle : ∀ call ∈ calls, idle call = true)
    (hrun : run cfg be s calls = some s₁) :
    s₁.sink.held = s.sink.held ∧ (s.sink.liveInfo = none → s₁.sink.liveInfo = none) := by
  induction calls generalizing s with
  | nil =>
      obtain rfl : s = s₁ := by simpa [run] using hrun
      exact ⟨rfl, id⟩
  | cons call rest ih =>
      unfold run at hrun
      rw [List.foldlM_cons] at hrun
      obtain ⟨s₂, hcall, hrest⟩ := Option.bind_eq_some_iff.1 hrun
      obtain ⟨hheld, hlive⟩ := ih (fun c hc => hidle c (List.mem_cons_of_mem _ hc)) hrest
      have hone : s₂.sink.held = s.sink.held ∧ (s.sink.liveInfo = none → s₂.sink.liveInfo = none) := by
        have hidle₁ : idle call = true := hidle call List.mem_cons_self
        cases call with
        | write flush => cases hidle₁
        | close => cases hidle₁
        | resetCaches =>
            have hreset : final resetCaches s = s₂ := by simpa [perform] using hcall
            obtain rfl : s.reset = s₂ := hreset
            exact ⟨rfl, fun _ => rfl⟩
        | others moves =>
            obtain rfl : _ = s₂ := by simpa [perform] using hcall
            exact ⟨rfl, id⟩
      exact ⟨hheld.trans hone.1, fun h => hlive (hone.2 h)⟩

/-! ## The next write -/

theorem not_reserved {flush : Flush ρ V} (h : isWritten flush = true) :
    ¬ (flush.batch.names.any fun name => decide (name ∈ reservedColumns)) = true ∧
      ¬ isSkipped flush.batch = true := by
  unfold isWritten at h
  simp only [Bool.and_eq_true, Bool.not_eq_true'] at h
  exact ⟨by simp [h.1], by simp [h.2]⟩

/-- Without a payload, a write builds one. -/
theorem write_builds {s : St ρ} {flush : Flush ρ V} (hwritten : isWritten flush = true)
    (hnone : s.sink.prepared = none) :
    write cfg be flush s = (do buildPayload cfg be flush; commitPrepared) s := by
  obtain ⟨hreserved, hskip⟩ := not_reserved hwritten
  have hreplay : ¬ isReplay flush s.sink = true := by simp [isReplay, hnone]
  have hdiscard : discardPrepared .superseded s = .ok ⟨⟩ s := by
    unfold discardPrepared
    rw [get_bind_apply, hnone]
    rfl
  unfold write
  rw [if_neg hreserved, if_neg hskip]
  show (if isReplay flush s.sink = true then _ else _ : M ρ ℕ) s = _
  rw [if_neg hreplay]
  show EStateM.bind (discardPrepared .superseded) _ s = _
  unfold EStateM.bind
  rw [hdiscard]

/-- A payload held for the identity goes out. -/
theorem write_replays {s : St ρ} {flush : Flush ρ V} (hwritten : isWritten flush = true)
    (held : s.sink.prepared = some payload) (hidentity : flush.identity.isSome = true)
    (hoffsets : flush.identity = s.sink.preparedOffsets) :
    write cfg be flush s = commitPrepared s := by
  obtain ⟨hreserved, hskip⟩ := not_reserved hwritten
  have hreplay : isReplay flush s.sink = true := by
    unfold isReplay
    rw [hidentity, held, hoffsets]
    simp
  unfold write
  rw [if_neg hreserved, if_neg hskip]
  show (if isReplay flush s.sink = true then _ else _ : M ρ ℕ) s = _
  rw [if_pos hreplay]

/-- Everything the sink works with since the log was `base` was read since then. -/
structure Anew (base events : List Event) (s : St ρ) : Prop where
  log : s.log = events ++ base
  live : ∀ info, s.sink.liveInfo = some info → ∃ declared, .adopted info declared ∈ events
  held : ∀ payload, s.sink.prepared = some payload → PreparedIn events payload
  sent : ∀ payload, .sent payload ∈ events → PreparedIn events payload

theorem PreparedIn.mono {events events' : List Event} (h : PreparedIn events payload)
    (hsub : events ⊆ events') : PreparedIn events' payload := by
  obtain ⟨info, declared, hprepared, hadopted⟩ := h
  exact ⟨info, declared, hsub hprepared, hsub hadopted⟩

/-- Steps that neither adopt nor prepare. -/
theorem Anew.keep {base events : List Event} {s s' : St ρ} (h : Anew base events s)
    (hlog : ∃ new, s'.log = new ++ s.log ∧ ∀ sent, .sent sent ∈ new → s.sink.prepared = some sent)
    (hlive : s'.sink.liveInfo = s.sink.liveInfo ∨ s'.sink.liveInfo = none)
    (hheld : s'.sink.prepared = s.sink.prepared ∨ s'.sink.prepared = none) :
    ∃ events', Anew base events' s' := by
  obtain ⟨new, hnew, hsent⟩ := hlog
  have hsub : events ⊆ new ++ events := List.subset_append_right _ _
  refine ⟨new ++ events, ?_, fun info hinfo => ?_, fun payload hp => ?_, fun payload hp => ?_⟩
  · rw [hnew, h.log, List.append_assoc]
  · rcases hlive with hsame | hnone
    · obtain ⟨declared, hadopted⟩ := h.live info (hsame ▸ hinfo)
      exact ⟨declared, hsub hadopted⟩
    · cases hnone.symm.trans hinfo
  · rcases hheld with hsame | hnone
    · exact (h.held payload (hsame ▸ hp)).mono hsub
    · cases hnone.symm.trans hp
  · rcases List.mem_append.1 hp with hin | hold
    · exact (h.held payload (hsent payload hin)).mono hsub
    · exact (h.sent payload hold).mono hsub

theorem Anew.silent {base events : List Event} {s s' : St ρ} (h : Anew base events s)
    (hlog : Silent s s') (hlive : s'.sink.liveInfo = s.sink.liveInfo ∨ s'.sink.liveInfo = none)
    (hheld : s'.sink.prepared = s.sink.prepared ∨ s'.sink.prepared = none) :
    ∃ events', Anew base events' s' := by
  obtain ⟨new, hnew, hnone⟩ := hlog
  exact h.keep ⟨new, hnew, fun sent hsent => absurd hsent (hnone sent)⟩ hlive hheld

/-- Every step of the sink keeps it so. -/
theorem Step.anew {base : List Event} {s s' : St ρ} (h : Step cfg s s')
    (hs : ∃ events, Anew base events s) : ∃ events, Anew base events s' := by
  obtain ⟨events, hs⟩ := hs
  cases h with
  | adopt info declared honest =>
      have hsub : events ⊆ .adopted info declared :: events := List.subset_cons_self _ _
      refine ⟨.adopted info declared :: events, ?_, fun info' hinfo => ?_, fun payload hp => ?_,
        fun payload hp => ?_⟩
      · exact congrArg (List.cons _) hs.log
      · obtain rfl := Option.some.inj hinfo
        exact ⟨declared, List.mem_cons_self⟩
      · exact (hs.held payload hp).mono hsub
      · rcases List.mem_cons.1 hp with heq | hold
        · cases heq
        · exact (hs.sent payload hold).mono hsub
  | prepare info read payload objects rows offsets ready built objects_eq =>
      -- the uploads say nothing of payloads, the prepare names the shape it adopted
      obtain ⟨up, hup, hnone⟩ := Silent.upload s info objects.length objects
      obtain ⟨declared, hadopted⟩ := hs.live info ready.working.live
      have hsub : events ⊆ .prepared payload info :: (up ++ events) :=
        fun e he => List.mem_cons_of_mem _ (List.mem_append_right _ he)
      have hprepared : PreparedIn (.prepared payload info :: (up ++ events)) payload :=
        ⟨info, declared, List.mem_cons_self, hsub hadopted⟩
      refine ⟨.prepared payload info :: (up ++ events), ?_, fun info' hinfo => ?_, fun payload' hp => ?_,
        fun payload' hp => ?_⟩
      · show Event.prepared payload info :: (s.upload info objects.length objects).log = _
        rw [hup, hs.log, List.cons_append, List.append_assoc]
      · obtain ⟨declared', hadopted'⟩ := hs.live info' hinfo
        exact ⟨declared', hsub hadopted'⟩
      · obtain rfl := Option.some.inj hp
        exact hprepared
      · rcases List.mem_cons.1 hp with heq | hrest
        · cases heq
        · rcases List.mem_append.1 hrest with hin | hold
          · exact absurd hin (hnone payload')
          · exact (hs.sent payload' hold).mono hsub
  | send payload held =>
      refine hs.keep ⟨[.sent payload], rfl, fun sent hsent => ?_⟩ (Or.inl rfl) (Or.inl rfl)
      cases List.mem_singleton.1 hsent
      exact held
  | record info => exact hs.silent (.cons rfl fun _ h => by cases h) (Or.inl rfl) (Or.inl rfl)
  | attachReconciled info => exact hs.silent (.cons rfl fun _ h => by cases h) (Or.inl rfl) (Or.inl rfl)
  | dropShape cache => exact hs.silent (.cons rfl fun _ h => by cases h) (Or.inr rfl) (Or.inl rfl)
  | reset => exact hs.silent (.cons rfl fun _ h => by cases h) (Or.inr rfl) (Or.inl rfl)
  | uploadFailed info read n objects =>
      refine hs.silent ((Silent.upload s info n objects).trans (Silent.report _ _ _)) (Or.inl ?_)
        (Or.inl ?_)
      · rw [St.report_sink]
        rfl
      · rw [St.report_sink]
        rfl
  | published => exact hs.silent (.of_eq rfl) (Or.inl rfl) (Or.inr rfl)
  | alreadyPublished payload =>
      have hnote : Silent s (s.note (.alreadyPublished payload)) := .cons rfl fun _ h => by cases h
      refine hs.silent (hnote.trans ((Silent.report _ _ _).trans (.of_eq rfl))) (Or.inl ?_)
        (Or.inr rfl)
      unfold St.clear
      simp only [St.report_sink]
      rfl
  | discard payload reason =>
      exact hs.silent (silent_discarded s payload reason)
        (Or.inl (discarded_liveInfo s payload reason)) (Or.inr rfl)
  | _ => exact hs.silent (.of_eq rfl) (Or.inl rfl) (Or.inl rfl)

/-! ## What a commit leads to -/

theorem forgotten_of {s : St ρ} (hs : Sound cfg (fun _ : Flush ρ V => True) s)
    (hprepared : s.sink.prepared = none) (hlive : s.sink.liveInfo = none) : Forgotten cfg be s := by
  refine ⟨hprepared, fun calls s₁ flush hidle hrun hwritten => ?_⟩
  obtain ⟨hheld, hlive₁⟩ := idle_run hidle hrun
  have hnone : s₁.sink.prepared = none := (congrArg Prod.fst hheld).trans hprepared
  refine ⟨write_builds hwritten hnone, fun s₂ hwrite => ?_⟩
  have hs₁ := (run_keeping (fun _ _ => trivial) hs hrun).sound
  have hsteps : Steps cfg s₁ s₂ := (perform_keeping (fun _ _ => trivial) hs₁ hwrite).steps
  have hstart : Anew s₁.log [] s₁ := by
    refine ⟨rfl, fun info h => ?_, fun payload h => ?_, fun payload h => nomatch h⟩
    · cases (hlive₁ hlive).symm.trans h
    · cases hnone.symm.trans h
  obtain ⟨events, hanew⟩ := hsteps.invariant (fun _ _ hstep => Step.anew hstep) ⟨[], hstart⟩
  exact ⟨events, hanew.log, hanew.sent⟩

/-- The payload that is sent again is the only request of that write. -/
theorem commitPrepared_silent {s : St ρ} (held : s.sink.prepared = some payload) :
    Silent (s.send payload) (final commitPrepared s) := by
  refine final_of_wp (wp_commitPrepared held (fun s₁ _ hsame => ?_) (fun e s₁ _ hsame => ?_)
    fun r s₁ _ _ hsame => .of_eq hsame.2)
  · unfold commitAnswered clearPrepared
    simp only [wp_bind, wp_get, wp_onSink, wp_pure]
    exact .of_eq hsame.2
  · have held₁ : s₁.sink.prepared = some payload := (congrArg Prod.fst hsame.1).trans held
    have hbefore : Silent (s.send payload) s₁ := .of_eq hsame.2
    exact wp_mono (commitRefused_answered held₁ e) (fun _ _ h => hbefore.trans h.silent)
      (fun _ _ h => hbefore.trans h.1.silent)

theorem retained_of {s s' : St ρ} (held : s.sink.prepared = some payload)
    (hsame : s'.sink.held = s.sink.held) : Retained cfg be payload s s' := by
  refine ⟨hsame, fun calls s₁ flush hidle hrun hidentity hoffsets hwritten => ?_⟩
  obtain ⟨hheld, -⟩ := idle_run hidle hrun
  have hheld₁ : s₁.sink.held = s.sink.held := hheld.trans hsame
  have held₁ : s₁.sink.prepared = some payload := (congrArg Prod.fst hheld₁).trans held
  have hoffsets₁ : s₁.sink.preparedOffsets = s.sink.preparedOffsets :=
    congrArg (fun held => held.2.2) hheld₁
  have hwrite : write cfg be flush s₁ = commitPrepared s₁ :=
    write_replays hwritten held₁ hidentity (hoffsets.trans hoffsets₁.symm)
  have hfinal : final (write cfg be flush) s₁ = final commitPrepared s₁ := by
    unfold final
    rw [hwrite]
  rw [hfinal]
  exact ⟨hwrite, held₁, commitPrepared_silent held₁⟩

/-- The state after a commit that was refused. -/
theorem commitPrepared_answered {s : St ρ} (held : s.sink.prepared = some payload) {e : HoglakeError}
    (hanswer : commitAnswer payload s = some (.hoglake e)) :
    (letsGo e = true → (final commitPrepared s).sink.prepared = none) ∧
      (letsGo e = false → (final commitPrepared s).sink.held = s.sink.held) ∧
      (final commitPrepared s).sink.liveInfo = none := by
  refine final_of_wp (P := fun s' : St ρ => (letsGo e = true → s'.sink.prepared = none) ∧
    (letsGo e = false → s'.sink.held = s.sink.held) ∧ s'.sink.liveInfo = none)
    (wp_commitPrepared held (fun s₁ hnone _ => ?_) (fun e' s₁ hsome hsame => ?_) fun r s₁ hsome hnot _ => ?_)
  · cases hnone.symm.trans hanswer
  · obtain rfl : e' = e := by simpa using hsome.symm.trans hanswer
    have held₁ : s₁.sink.prepared = some payload := (congrArg Prod.fst hsame.1).trans held
    exact wp_mono (commitRefused_answered held₁ e')
      (fun _ _ h => ⟨h.prepared, fun hstay => (h.held hstay).trans hsame.1, h.liveInfo⟩)
      (fun _ _ h => ⟨h.1.prepared, fun hstay => (h.1.held hstay).trans hsame.1, h.1.liveInfo⟩)
  · exact absurd (Option.some.inj (hsome.symm.trans hanswer)) (hnot e)

/-- A transport error leaves the payload alone. -/
theorem commitPrepared_lost {s : St ρ} (held : s.sink.prepared = some payload)
    (hanswer : commitAnswer payload s = some .transport) :
    (final commitPrepared s).sink.held = s.sink.held := by
  refine final_of_wp (P := fun s' : St ρ => s'.sink.held = s.sink.held)
    (wp_commitPrepared held (fun s₁ hnone _ => ?_) (fun e s₁ hsome _ => ?_) fun r s₁ _ _ hsame => hsame.1)
  · cases hnone.symm.trans hanswer
  · cases hsome.symm.trans hanswer

/-- The sink is sound after a commit that was refused. -/
theorem commitPrepared_sound {s : St ρ} (hs : Sound cfg (fun _ : Flush ρ V => True) s)
    (held : s.sink.prepared = some payload) {e : HoglakeError}
    (hanswer : commitAnswer payload s = some (.hoglake e)) :
    Sound cfg (fun _ : Flush ρ V => True) (final commitPrepared s) := by
  have halive : wp (commitPrepared : M ρ ℕ) (fun _ _ => True) (fun r _ => r.error ≠ .killed) s := by
    refine wp_commitPrepared held (fun s₁ hnone _ => ?_) (fun e' s₁ _ hsame => ?_)
      fun r s₁ hsome hnot _ => ?_
    · cases hnone.symm.trans hanswer
    · have held₁ : s₁.sink.prepared = some payload := (congrArg Prod.fst hsame.1).trans held
      exact wp_mono (commitRefused_answered held₁ e') (fun _ _ _ => trivial) (fun _ _ h => h.2)
    · exact absurd (Option.some.inj (hsome.symm.trans hanswer)) (hnot e)
  refine final_of_wp (wp_mono (wp_and (commitPrepared_spec cfg held) halive) ?_ ?_)
  · rintro count s' ⟨⟨hreturned, -⟩, -⟩
    exact hs.keep ⟨hreturned.steps, Or.inl hreturned.prepared⟩
  · rintro r s' ⟨hfails, hnot⟩
    unfold Fails at hfails
    rw [if_neg hnot] at hfails
    exact hs.keep hfails

variable (cfg be) in
/-- **Refusals and payloads.** For the payload a sink holds after any run: a refusal is answered by
    forgetting it and anything undecided by retaining it exactly if the response is recognized. -/
theorem settles_iff {world : World ρ} {calls : List (Call ρ V)} {s : St ρ}
    (hrun : run cfg be (St.new world) calls = some s) (held : s.sink.prepared = some payload) :
    Settles cfg be payload s ↔ ∀ e, commitAnswer payload s = some (.hoglake e) → Recognized e := by
  have hs : Sound cfg (fun _ : Flush ρ V => True) s :=
    (run_keeping (fun _ _ => trivial) (sound_new world) hrun).sound
  constructor
  · intro h e hanswer
    obtain ⟨hgone, hstays, -⟩ := commitPrepared_answered held hanswer
    constructor
    · intro hrefuses
      by_contra hnot
      have hnone := (h.refused e hanswer hrefuses).1
      have hsame := hstays (by simpa using hnot)
      cases (hnone.symm.trans (congrArg Prod.fst hsame)).trans held
    · intro hpostpones
      by_contra hgo
      have hsame := (h.undecided (Or.inr ⟨e, hanswer, hpostpones⟩)).1
      have hnone := hgone (by simpa using hgo)
      cases (hnone.symm.trans (congrArg Prod.fst hsame)).trans held
  · intro h
    refine ⟨fun e hanswer hrefuses => ?_, ?_⟩
    · obtain ⟨hgone, -, hlive⟩ := commitPrepared_answered held hanswer
      exact forgotten_of (commitPrepared_sound hs held hanswer) (hgone ((h e hanswer).1 hrefuses)) hlive
    · rintro (hlost | ⟨e, hanswer, hpostpones⟩)
      · exact retained_of held (commitPrepared_lost held hlost)
      · obtain ⟨-, hstays, -⟩ := commitPrepared_answered held hanswer
        exact retained_of held (hstays ((h e hanswer).2 hpostpones))

/-! ## A table that is dropped -/

/-- The response to the first attempt is lost, with the request. -/
def firstSendLost : World ℕ :=
  Hoglake.demoWorld ⟨demoColumns, [], []⟩
    [answered, answered, answered, answered, demoTurn [] (.lost .never)]

/-- A payload is held, and the table it is for is dropped. -/
def heldForDropped : Option (St ℕ) :=
  run demoCfg demoBackend (St.new firstSendLost) [.write (demoFlush [7, 8] 0 1), .others [.dropTable]]

theorem heldForDropped_holds : ∃ s payload, heldForDropped = some s ∧ s.sink.prepared = some payload := by
  have hheld : (heldForDropped.bind fun s => s.sink.prepared).isSome = true := by decide +kernel
  obtain ⟨payload, h⟩ := Option.isSome_iff_exists.1 hheld
  obtain ⟨s, hs, held⟩ := Option.bind_eq_some_iff.1 h
  exact ⟨s, payload, hs, held⟩

theorem settles_iff_dropped : ∃ s payload, heldForDropped = some s ∧ s.sink.prepared = some payload ∧
    (Settles demoCfg demoBackend payload s ↔
      ∀ e, commitAnswer payload s = some (.hoglake e) → Recognized e) := by
  obtain ⟨s, payload, hs, held⟩ := heldForDropped_holds
  exact ⟨s, payload, hs, held, settles_iff demoCfg demoBackend hs held⟩

/-- The answer is a 404, which is no refusal to `_is_answered_refusal`. -/
theorem not_settles_dropped : ∃ s payload, heldForDropped = some s ∧ s.sink.prepared = some payload ∧
    ¬ Settles demoCfg demoBackend payload s := by
  obtain ⟨s, payload, hs, held⟩ := heldForDropped_holds
  have hanswer : (heldForDropped.all fun s => s.sink.prepared.all fun payload =>
      decide (commitAnswer payload s = some (.hoglake notFoundError))) = true := by decide +kernel
  rw [hs, Option.all_some, held, Option.all_some, decide_eq_true_eq] at hanswer
  refine ⟨s, payload, hs, held, fun h => ?_⟩
  obtain ⟨-, hstays, -⟩ := commitPrepared_answered held hanswer
  have hnone := (h.refused notFoundError hanswer (by decide)).1
  have hsame := hstays (by decide +kernel)
  cases (hnone.symm.trans (congrArg Prod.fst hsame)).trans held

end Millpond.Restart

import DirectoryExchange.Ldap.Session
import DirectoryExchange.Proofs.SortedMap
import DirectoryExchange.Proofs.Transfer.Course
import Mathlib.Data.List.Forall2

/-!
# Loading over a session

A load over a session sends the records that it applies and nothing else.  Each of them is one
request that says what the record says (`Translates`), and what the load is told of it is what the
server replied to that request (`Answers`).  Each step of a load keeps this (`Sends.cons`), and
hence so does the whole of its course (`exists_requests`): `load_sent`.
-/

namespace DirectoryExchange

open Transfer

/-! ### What was answered to a load -/

namespace Transfer

/-- The record that was applied in the turn, with the answer to it. -/
def Turn.answered? : Turn → Option (ChangeRecord × Except OperationError Unit)
  | accepted _ record => some (record, .ok ())
  | rejected _ record error => some (record, .error (.directory error))
  | unreadable _ _ => none

/-- The record that was applied last, with the answer that stopped the load. -/
def Stop.answered? : Stop → Option (ChangeRecord × Except OperationError Unit)
  | cancelledBeforeNext => none
  | ended => none
  | streamFailed _ _ => none
  | unreadable _ _ => none
  | cancelledBeforeApply _ _ => none
  | rejected _ record error => some (record, .error (.directory error))
  | disconnected _ record error => some (record, .error (.connection error))

/-- The records that a load applied, in order, with the answers to them. -/
def answered (turns : List Turn) (stop : Stop) :
    List (ChangeRecord × Except OperationError Unit) :=
  turns.filterMap Turn.answered? ++ stop.answered?.toList

/-- What was answered is read off turn by turn. -/
lemma answered_cons (turn : Turn) (turns : List Turn) (stop : Stop) :
    answered (turn :: turns) stop = turn.answered?.toList ++ answered turns stop := by
  rw [answered, answered, List.filterMap_cons]
  cases turn.answered? <;> rfl

section Course

variable {σ : Type} {connection : Connection σ} {options : LoadOptions} {p p' : Progress}
  {s s' last : σ} {turn : Turn} {stop : Stop} {items : List Item} {turns : List Turn}

/-- A turn was answered if its item is a record. -/
lemma Passes.record_eq (h : Passes connection options p s turn p' s') :
    turn.item.outcome.toOption = turn.answered?.map (·.1) := by
  cases h <;> simp_all [Turn.item, Turn.answered?, Except.toOption]

/-- The item at which a load stops was answered if it is a record and the load was not cancelled. -/
lemma Stops.record_eq (h : Stops connection options p s items stop last)
    (hcancelled : ∀ q, options.cancelled q = false) :
    stop.item?.toList.filterMap (·.outcome.toOption) = stop.answered?.toList.map (·.1) := by
  cases h <;> simp_all [Stop.item?, Stop.answered?, Except.toOption]

/-- A load that is not cancelled applies every record that it reads. -/
theorem Course.records_eq (h : Course connection options p s items turns stop last)
    (hcancelled : ∀ q, options.cancelled q = false) :
    (answered turns stop).map (·.1) =
      (turns.map Turn.item ++ stop.item?.toList).filterMap (·.outcome.toOption) := by
  induction h with
  | stop hstop => exact (hstop.record_eq hcancelled).symm
  | @turn _ _ _ _ _ turn _ _ _ hturn _ ih =>
    have hrecord := hturn.record_eq
    rw [answered_cons, List.map_append, ih, List.map_cons, List.cons_append, List.filterMap_cons,
      hrecord]
    cases turn.answered? <;> rfl

/-- A load that ignores no errors goes on behind accepted records only. -/
lemma Course.isAccepted (h : Course connection options p s items turns stop last)
    (hignore : options.ignoreErrors = false) : ∀ turn ∈ turns, turn.isAccepted = true := by
  induction h with
  | stop _ => exact fun _ hturn => absurd hturn List.not_mem_nil
  | turn hturn _ ih =>
    refine List.forall_mem_cons.2 ⟨?_, ih⟩
    cases hturn <;> simp_all [Turn.isAccepted]

/-- A load that ignores errors does not stop at a rejected record. -/
lemma Course.not_rejected (h : Course connection options p s items turns stop last)
    (hignore : options.ignoreErrors = true) (item : Item) (record : ChangeRecord)
    (error : DirectoryError) : stop ≠ .rejected item record error := by
  induction h with
  | stop hstop => cases hstop <;> simp_all
  | turn _ _ ih => exact ih

end Course

end Transfer

namespace Ldap

/-! ### Values as a set -/

/-- The set of some values as it is sent: each of them once, in ascending order. -/
structure IsSetOf (set values : List Bytes) : Prop where
  /-- Every value is below those behind it. -/
  ascending : set.Pairwise fun v w => compare v w = .lt
  /-- The values are there, and no others. -/
  mem_iff : ∀ v, v ∈ set ↔ v ∈ values

/-- A set of values is a sorted map that holds nothing at its keys. -/
lemma map_insertValue (value : Bytes) (set : List Bytes) :
    (insertValue value set).map (·, ()) = SortedMap.insertInto value () (set.map (·, ())) := by
  induction set with
  | nil => rfl
  | cons other rest ih =>
    rw [insertValue, List.map_cons, SortedMap.insertInto]
    cases horder : compare value other with
    | lt => rfl
    | eq =>
      obtain rfl := Std.LawfulEqOrd.eq_of_compare horder
      rfl
    | gt => simp only [List.map_cons, ih]

/-- An inserted value is in the set once. -/
lemma IsSetOf.insert {set values : List Bytes} (h : IsSetOf set values) (value : Bytes) :
    IsSetOf (insertValue value set) (value :: values) := by
  have hsorted : (set.map (·, ())).Pairwise fun x y => compare x.1 y.1 = .lt :=
    List.pairwise_map.2 h.ascending
  refine ⟨?_, fun v => ?_⟩
  · have hinserted := SortedMap.sorted_insertInto (k := value) (v := ()) hsorted
    rw [← map_insertValue] at hinserted
    exact List.pairwise_map.1 hinserted
  · have hmem := SortedMap.mem_insertInto_iff (k := value) (v := ()) hsorted (x := (v, ()))
    rw [← map_insertValue] at hmem
    simp only [List.mem_map, Prod.mk.injEq, and_true, exists_eq_right, h.mem_iff] at hmem
    rw [hmem, List.mem_cons]
    tauto

/-- The values that are sent are those of the record, each once. -/
lemma isSetOf_valueSet (values : List Bytes) : IsSetOf (valueSet values) values := by
  induction values with
  | nil => exact ⟨.nil, fun _ => Iff.rfl⟩
  | cons value rest ih => exact ih.insert value

/-! ### Records and requests -/

/-- Whether a request says what a record says: the same kind, name, attributes or modifications,
with the values of each as a set. -/
inductive Translates : ChangeRecord → Request → Prop
  | add {entry : Entry} {attributes : List (String × List Bytes)}
      (hattributes : List.Forall₂ (fun a sent => sent.1 = a.name ∧ IsSetOf sent.2 a.values)
        entry.attributes attributes) :
      Translates (.add entry) (.add entry.dn attributes)
  | delete {dn : String} (hdn : dn ≠ "") : Translates (.delete dn hdn) (.delete dn)
  | modify {dn : String} {steps : List Modification} (hdn : dn ≠ "") (hsteps : steps ≠ [])
      {changes : List (ModificationKind × String × List Bytes)}
      (hchanges : List.Forall₂
        (fun m sent => sent.1 = m.kind ∧ sent.2.1 = m.name ∧ IsSetOf sent.2.2 m.values)
        steps changes) :
      Translates (.modify dn steps hdn hsteps) (.modify dn changes)
  | rename {dn : String} (r : Rename) (hdn : dn ≠ "") :
      Translates (.rename dn r hdn) (.rename dn r.newRdn r.deleteOldRdn r.newSuperior)

/-- Every record has a request that says the same. -/
lemma translates_ofRecord (record : ChangeRecord) : Translates record (.ofRecord record) := by
  cases record with
  | add entry =>
    refine .add (List.forall₂_map_right_iff.2 (List.forall₂_same.2 fun a _ => ?_))
    exact ⟨rfl, isSetOf_valueSet a.values⟩
  | delete dn hdn => exact .delete hdn
  | modify dn steps hdn hsteps =>
    refine .modify hdn hsteps (List.forall₂_map_right_iff.2 (List.forall₂_same.2 fun m _ => ?_))
    exact ⟨rfl, rfl, isSetOf_valueSet m.values⟩
  | rename dn r hdn => exact .rename r hdn

/-! ### Replies and answers -/

/-- What a server says to requests that are sent one after the other. -/
def Server.replies {σ : Type} (server : Server σ) : σ → List Request → List (Option Reply)
  | _, [] => []
  | state, request :: rest =>
    (server.answer state request).1 :: server.replies (server.answer state request).2 rest

/-- What a reply means to the sender: every code but 0 is a refusal, with that code and the words of
the server, and no reply a failure of the connection. -/
inductive Answers : Option Reply → Except OperationError Unit → Prop
  | accepted {reply : Reply} (hcode : reply.code.number = 0) : Answers (some reply) (.ok ())
  | refused {reply : Reply} (hcode : reply.code.number ≠ 0) :
      Answers (some reply) (.error (.directory ⟨reply.code, reply.message⟩))
  | gone : Answers none (.error (.connection Session.gone))

/-- An answer other than that the server is gone comes from a reply. -/
lemma Answers.isSome {reply : Option Reply} {answer : Except OperationError Unit}
    (h : Answers reply answer) (hanswer : answer ≠ .error (.connection Session.gone)) :
    reply.isSome = true := by
  cases h with
  | accepted _ => rfl
  | refused _ => rfl
  | gone => exact absurd rfl hanswer

namespace Session

variable {σ : Type} {server : Server σ} {s s' last : Session σ}

/-- A reply is passed on as what it says. -/
lemma answers_outcome (reply : Reply) : Answers (some reply) (outcome (.ok reply)) := by
  obtain ⟨⟨number⟩, message, entries⟩ := reply
  by_cases hnumber : number = 0
  · subst hnumber
    exact .accepted rfl
  · have hfailed : (⟨number⟩ : ResultCode).isSuccess = false := by
      simp [ResultCode.isSuccess, ResultCode.success, hnumber]
    simp only [outcome, hfailed, Bool.false_eq_true, if_false]
    exact .refused hnumber

/-- An open session sends one request for a record and hands on what the reply means. -/
lemma apply_of_alive (halive : s.alive = true) {record : ChangeRecord}
    {answer : Except OperationError Unit} (happly : apply server s record = (answer, s')) :
    let reply := server.answer s.state (.ofRecord record)
    Answers reply.1 answer ∧ s' = ⟨reply.2, reply.1.isSome, s.sent ++ [.ofRecord record]⟩ := by
  rw [apply, exchange, if_pos halive] at happly
  generalize server.answer s.state (.ofRecord record) = reply at happly ⊢
  obtain ⟨said, state⟩ := reply
  cases said with
  | none =>
    obtain ⟨rfl, rfl⟩ := Prod.mk.inj happly
    exact ⟨.gone, rfl⟩
  | some said =>
    obtain ⟨rfl, rfl⟩ := Prod.mk.inj happly
    exact ⟨answers_outcome said, rfl⟩

/-- What a session sends from one state to another: a request for each of the records, and each of
them with this answer. -/
structure Sends (server : Server σ) (s : Session σ)
    (answered : List (ChangeRecord × Except OperationError Unit)) (requests : List Request)
    (last : Session σ) : Prop where
  /-- The requests are sent, and no others. -/
  sent : last.sent = s.sent ++ requests
  /-- Each says what the record says. -/
  translates : List.Forall₂ Translates (answered.map (·.1)) requests
  /-- Each is answered by what the server replied to it. -/
  answers : List.Forall₂ Answers (server.replies s.state requests) (answered.map (·.2))

lemma Sends.refl (server : Server σ) (s : Session σ) : Sends server s [] [] s :=
  ⟨(List.append_nil _).symm, .nil, .nil⟩

/-- A record that is applied sends its request in front of the others. -/
lemma Sends.cons (halive : s.alive = true) {record : ChangeRecord}
    {answer : Except OperationError Unit} (happly : apply server s record = (answer, s'))
    {answered : List (ChangeRecord × Except OperationError Unit)} {requests : List Request}
    (h : Sends server s' answered requests last) :
    Sends server s ((record, answer) :: answered) (.ofRecord record :: requests) last := by
  obtain ⟨hanswer, rfl⟩ := apply_of_alive halive happly
  refine ⟨?_, .cons (translates_ofRecord record) h.translates, .cons hanswer h.answers⟩
  rw [h.sent, List.append_assoc, List.singleton_append]

/-! ### The course of a load -/

section Course

variable {options : LoadOptions} {p p' : Progress} {turn : Turn} {stop : Stop} {items : List Item}
  {turns : List Turn}

/-- A session is open behind a record that was accepted or rejected. -/
lemma alive_of_passes (h : Passes (connection server) options p s turn p' s')
    (halive : s.alive = true) : s'.alive = true := by
  cases h with
  | accepted _ _ _ happly =>
    obtain ⟨hanswer, rfl⟩ := apply_of_alive halive happly
    exact hanswer.isSome nofun
  | rejected _ _ _ happly =>
    obtain ⟨hanswer, rfl⟩ := apply_of_alive halive happly
    exact hanswer.isSome nofun
  | unreadable => exact halive

/-- A turn sends one request if it was answered, and else none. -/
lemma exists_requests_of_passes (h : Passes (connection server) options p s turn p' s')
    (halive : s.alive = true) {answered : List (ChangeRecord × Except OperationError Unit)}
    {requests : List Request} (hrest : Sends server s' answered requests last) :
    ∃ requests', Sends server s (turn.answered?.toList ++ answered) requests' last := by
  cases h with
  | accepted _ _ _ hanswer => exact ⟨_, hrest.cons halive hanswer⟩
  | rejected _ _ _ hanswer => exact ⟨_, hrest.cons halive hanswer⟩
  | unreadable => exact ⟨_, hrest⟩

/-- A stop sends one request if it was answered, and else none. -/
lemma exists_requests_of_stops (h : Stops (connection server) options p s items stop last)
    (halive : s.alive = true) :
    ∃ requests, Sends server s stop.answered?.toList requests last := by
  cases h with
  | rejected _ _ _ hanswer => exact ⟨_, (Sends.refl server last).cons halive hanswer⟩
  | disconnected _ _ _ hanswer => exact ⟨_, (Sends.refl server last).cons halive hanswer⟩
  | _ => exact ⟨_, .refl server s⟩

/-- What a load sends are the requests of the records that it was answered. -/
theorem exists_requests (h : Course (connection server) options p s items turns stop last)
    (halive : s.alive = true) :
    ∃ requests, Sends server s (answered turns stop) requests last := by
  induction h with
  | stop hstop => exact exists_requests_of_stops hstop halive
  | turn hturn _ ih =>
    obtain ⟨requests, hrest⟩ := ih (alive_of_passes hturn halive)
    rw [answered_cons]
    exact exists_requests_of_passes hturn halive hrest

/-- A server replies up to the end of a load, or goes away, and then that is the end. -/
lemma exists_given {replies : List (Option Reply)}
    (h : List.Forall₂ Answers replies ((answered turns stop).map (·.2))) :
    ∃ given : List Reply, replies =
      given.map some ++ if stop.failure? = some (.connection gone) then [none] else [] := by
  -- a reply is missing only where the load stops because the server is gone
  induction turns generalizing replies with
  | nil =>
    cases stop with
    | rejected _ _ _ =>
      obtain ⟨reply, _, hanswer, hbehind, rfl⟩ := List.forall₂_cons_right_iff.1 h
      obtain ⟨said, rfl⟩ := Option.isSome_iff_exists.1 (hanswer.isSome nofun)
      obtain rfl := List.forall₂_nil_right_iff.1 hbehind
      exact ⟨[said], rfl⟩
    | disconnected _ _ _ =>
      obtain ⟨reply, _, hanswer, hbehind, rfl⟩ := List.forall₂_cons_right_iff.1 h
      obtain rfl := List.forall₂_nil_right_iff.1 hbehind
      cases hanswer
      exact ⟨[], rfl⟩
    | _ =>
      obtain rfl := List.forall₂_nil_right_iff.1 h
      exact ⟨[], rfl⟩
  | cons turn rest ih =>
    rw [answered_cons, List.map_append] at h
    cases hanswered : turn.answered? with
    | none =>
      rw [hanswered] at h
      exact ih h
    | some answer =>
      rw [hanswered] at h
      obtain ⟨reply, behind, hanswer, hbehind, rfl⟩ := List.forall₂_cons_right_iff.1 h
      have hsome : reply.isSome = true := by
        refine hanswer.isSome ?_
        cases turn <;> cases hanswered <;> nofun
      obtain ⟨said, rfl⟩ := Option.isSome_iff_exists.1 hsome
      obtain ⟨given, rfl⟩ := ih hbehind
      exact ⟨said :: given, rfl⟩

end Course

/-- A load over an open session sends nothing if its source cannot be opened.  Else it takes a
course, and applies every record up to the item at which it stopped, unless it is cancelled.  For
each of them, in order, it sends the request that says the same, and nothing else.  The replies to
these requests are what it is told: a refusal is skipped if errors are ignored and stops it if not,
and a server that goes away stops it in any case, with nothing sent behind. -/
theorem load_sent (server : Server σ) (s : Session σ) (halive : s.alive = true)
    (source : LoadSource) (options : LoadOptions) :
    let report := load (connection server) s source options
    match source.opened with
    | .error _ => report.state = s
    | .ok feed =>
      ∃ turns stop requests,
        Course (connection server) options { octets := feed.startPosition } s feed.items turns stop
          report.state ∧
        report = courseReport options.mode source.closing feed.endEvents turns stop
          report.state ∧
        (∃ unread, feed.items = turns.map Turn.item ++ stop.item?.toList ++ unread) ∧
        ((∀ p, options.cancelled p = false) → (answered turns stop).map (·.1) =
          (turns.map Turn.item ++ stop.item?.toList).filterMap (·.outcome.toOption)) ∧
        report.state.sent = s.sent ++ requests ∧
        List.Forall₂ Translates ((answered turns stop).map (·.1)) requests ∧
        List.Forall₂ Answers (server.replies s.state requests) ((answered turns stop).map (·.2)) ∧
        (options.ignoreErrors = false → ∀ turn ∈ turns, turn.isAccepted = true) ∧
        (options.ignoreErrors = true → ∀ item record error, stop ≠ .rejected item record error) ∧
        ∃ given : List Reply, server.replies s.state requests =
          given.map some ++ if stop.failure? = some (.connection gone) then [none] else [] := by
  intro report
  cases hopened : source.opened with
  | error e => simp only [report, load, hopened]
  | ok feed =>
    obtain ⟨turns, stop, last, hcourse⟩ :=
      exists_course (connection server) options { octets := feed.startPosition } s feed.items
    -- the requests are those of the course, one for each record that was answered
    obtain ⟨requests, hsends⟩ := exists_requests hcourse halive
    have hreport : report =
        courseReport options.mode source.closing feed.endEvents turns stop last :=
      hcourse.load_eq hopened
    have hlast : report.state = last := by rw [hreport, courseReport]
    rw [← hlast] at hcourse hreport hsends
    exact ⟨turns, stop, requests, hcourse, hreport, hcourse.exists_unread, hcourse.records_eq,
      hsends.sent, hsends.translates, hsends.answers, hcourse.isAccepted, hcourse.not_rejected,
      exists_given hsends.answers⟩

/-- A refusal is skipped if errors are ignored; a server that goes away is not, and the record
behind is not sent. -/
theorem load_sent_gone :
    let server : Server (List Reply) := ⟨fun replies _ => (replies.head?, replies.tail)⟩
    let s : Session (List Reply) := { state := [⟨.entryAlreadyExists, "exists", []⟩] }
    let e : Entry := ⟨"cn=x", [⟨"cn", [[0x79], [0x78], [0x79]], by decide, by decide⟩], by decide,
      by decide⟩
    let source : LoadSource :=
      { opened := .ok
          { items := [⟨.ok (.add e), 1, []⟩, ⟨.ok (.delete "cn=y" (by decide)), 2, []⟩,
              ⟨.ok (.delete "cn=z" (by decide)), 3, []⟩],
            endPosition := 3 } }
    let report := load (connection server) s source { ignoreErrors := true }
    s.alive = true ∧
      ∃ turns stop requests, report.state.sent = requests ∧
        (answered turns stop).map (·.2) =
          [.error (.directory ⟨.entryAlreadyExists, "exists"⟩), .error (.connection gone)] ∧
        requests = [.add "cn=x" [("cn", [[0x78], [0x79]])], .delete "cn=y"] := by
  intro server s e source report
  obtain ⟨turns, stop, requests, -, -, -, -, hsent, -, hanswers, -⟩ :=
    load_sent server s rfl source { ignoreErrors := true }
  have hrequests : report.state.sent =
      [.add "cn=x" [("cn", [[0x78], [0x79]])], .delete "cn=y"] := by decide +kernel
  obtain rfl : _ = requests := hrequests.symm.trans hsent
  refine ⟨rfl, turns, stop, _, hrequests, ?_, rfl⟩
  have hreplies : server.replies s.state [.add "cn=x" [("cn", [[0x78], [0x79]])], .delete "cn=y"] =
      [some ⟨.entryAlreadyExists, "exists", []⟩, none] := rfl
  rw [hreplies] at hanswers
  generalize (answered turns stop).map (·.2) = answers at hanswers ⊢
  obtain _ | ⟨hrefused, _ | ⟨hgone, _ | _⟩⟩ := hanswers
  cases hgone
  cases hrefused with
  | accepted hcode => cases hcode
  | refused _ => rfl

end Session

end Ldap

end DirectoryExchange

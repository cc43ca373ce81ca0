import DirectoryExchange.Transfer.Load
import Mathlib.Tactic.Lemma

/-!
# The course of a load

A load goes from item to item.  Behind an item it goes on if its record was accepted, or if there is
an error that is passed over (`Passes`), and else it stops, for one of seven reasons (`Stops`).
These rules leave it no choice (`Course.unique`), and all that is reported of a load, its calls in
order, its account, its answer and what is told, is read off the turns that it took and the stop at
which it ended (`load_course`).
-/

namespace DirectoryExchange.Transfer

/-! ### Turns and stops -/

/-- What became of an item behind which a load went on. -/
inductive Turn where
  /-- Its record was accepted. -/
  | accepted (item : Item) (record : ChangeRecord)
  /-- Its record was rejected, which was passed over. -/
  | rejected (item : Item) (record : ChangeRecord) (error : DirectoryError)
  /-- It was no record, which was passed over. -/
  | unreadable (item : Item) (error : ParseError)

/-- Why a load stopped. -/
inductive Stop where
  /-- It was cancelled before it asked for an item. -/
  | cancelledBeforeNext
  /-- There were no more items. -/
  | ended
  /-- The stream failed. -/
  | streamFailed (item : Item) (error : StreamError)
  /-- An item was no record. -/
  | unreadable (item : Item) (error : ParseError)
  /-- It was cancelled before it applied a record that it had read. -/
  | cancelledBeforeApply (item : Item) (record : ChangeRecord)
  /-- A record was rejected. -/
  | rejected (item : Item) (record : ChangeRecord) (error : DirectoryError)
  /-- The connection failed. -/
  | disconnected (item : Item) (record : ChangeRecord) (error : ConnectionError)

namespace Turn

/-- The item. -/
def item : Turn → Item
  | accepted item _ => item
  | rejected item _ _ => item
  | unreadable item _ => item

/-- Whether the item counts as applied; else it counts as skipped. -/
def isAccepted : Turn → Bool
  | accepted _ _ => true
  | rejected _ _ _ => false
  | unreadable _ _ => false

/-- The calls of the turn: a record that has been read is applied at once. -/
def calls : Turn → List LoadCall
  | accepted _ record => [.next, .apply record]
  | rejected _ record _ => [.next, .apply record]
  | unreadable _ _ => [.next]

/-- What is told in the turn. -/
def events : Turn → List LogEvent
  | accepted item _ => item.events
  | rejected item _ _ => item.events ++ [applyFailed]
  | unreadable item error => item.events ++ [readFailed (.parse error)]

end Turn

namespace Stop

/-- The item at which the load stopped, if it had asked for one and was given it. -/
def item? : Stop → Option Item
  | cancelledBeforeNext => none
  | ended => none
  | streamFailed item _ => some item
  | unreadable item _ => some item
  | cancelledBeforeApply item _ => some item
  | rejected item _ _ => some item
  | disconnected item _ _ => some item

/-- The last calls before the reader is closed. -/
def calls : Stop → List LoadCall
  | cancelledBeforeNext => []
  | ended => [.next]
  | streamFailed _ _ => [.next]
  | unreadable _ _ => [.next]
  | cancelledBeforeApply _ _ => [.next]
  | rejected _ record _ => [.next, .apply record]
  | disconnected _ record _ => [.next, .apply record]

/-- What is told of the stop, where the end of the source has its own events. -/
def events (endEvents : List LogEvent) : Stop → List LogEvent
  | cancelledBeforeNext => [.warn "load cancelled"]
  | ended => endEvents
  | streamFailed item error => item.events ++ [readFailed (.stream error)]
  | unreadable item error => item.events ++ [readFailed (.parse error)]
  | cancelledBeforeApply item _ => item.events ++ [.warn "load cancelled"]
  | rejected item _ _ => item.events ++ [applyFailed]
  | disconnected item _ _ => item.events ++ [applyFailed]

/-- The failure that the stop is, if it is one. -/
def failure? : Stop → Option Failure
  | cancelledBeforeNext => none
  | ended => none
  | streamFailed _ error => some (.stream error)
  | unreadable _ error => some (.parse error)
  | cancelledBeforeApply _ _ => none
  | rejected _ _ error => some (.directory error)
  | disconnected _ _ error => some (.connection error)

/-- Whether the source was read to its end. -/
def isEnd : Stop → Bool
  | ended => true
  | _ => false

end Stop

/-! ### The rules -/

/-- The progress with an item asked for and given. -/
def Progress.ask (p : Progress) (item : Item) : Progress :=
  { p with asked := p.asked + 1, octets := item.position }

/-- The progress with another record applied. -/
def Progress.apply (p : Progress) : Progress := { p with applies := p.applies + 1 }

section Rules

variable {σ : Type} (connection : Connection σ) (options : LoadOptions)

/-- A turn of a load, from one progress and state of the connection to the next.  It is looked
whether the load is cancelled before an item is asked for, and again before its record is
applied. -/
inductive Passes : Progress → σ → Turn → Progress → σ → Prop
  /-- The record of the item is accepted. -/
  | accepted {p : Progress} {s s' : σ} {item : Item} {record : ChangeRecord}
      (hnext : options.cancelled p = false) (hread : item.outcome = .ok record)
      (happly : options.cancelled (p.ask item) = false)
      (hanswer : connection.apply s record = (.ok (), s')) :
      Passes p s (.accepted item record) (p.ask item).apply s'
  /-- The record of the item is rejected, and errors are ignored. -/
  | rejected {p : Progress} {s s' : σ} {item : Item} {record : ChangeRecord}
      {error : DirectoryError} (hnext : options.cancelled p = false)
      (hread : item.outcome = .ok record) (happly : options.cancelled (p.ask item) = false)
      (hanswer : connection.apply s record = (.error (.directory error), s'))
      (hignore : options.ignoreErrors = true) :
      Passes p s (.rejected item record error) (p.ask item).apply s'
  /-- The item is no record, it can be gone on behind it, and errors are ignored. -/
  | unreadable {p : Progress} {s : σ} {item : Item} {error : ParseError}
      (hnext : options.cancelled p = false) (hread : item.outcome = .error (.parse error))
      (hmay : error.mayContinue = true) (hignore : options.ignoreErrors = true) :
      Passes p s (.unreadable item error) (p.ask item) s

/-- A stop of a load before the items that are still to come, with the state in which the connection
is left. -/
inductive Stops : Progress → σ → List Item → Stop → σ → Prop
  /-- The load is cancelled. -/
  | cancelledBeforeNext {p : Progress} {s : σ} {items : List Item}
      (hnext : options.cancelled p = true) : Stops p s items .cancelledBeforeNext s
  /-- The end is reached. -/
  | ended {p : Progress} {s : σ} (hnext : options.cancelled p = false) : Stops p s [] .ended s
  /-- The stream fails. -/
  | streamFailed {p : Progress} {s : σ} {item : Item} {rest : List Item} {error : StreamError}
      (hnext : options.cancelled p = false) (hread : item.outcome = .error (.stream error)) :
      Stops p s (item :: rest) (.streamFailed item error) s
  /-- The item is no record, and errors are not ignored or it cannot be gone on behind this one. -/
  | unreadable {p : Progress} {s : σ} {item : Item} {rest : List Item} {error : ParseError}
      (hnext : options.cancelled p = false) (hread : item.outcome = .error (.parse error))
      (hstop : error.mayContinue = false ∨ options.ignoreErrors = false) :
      Stops p s (item :: rest) (.unreadable item error) s
  /-- The load has been cancelled while the record was read. -/
  | cancelledBeforeApply {p : Progress} {s : σ} {item : Item} {rest : List Item}
      {record : ChangeRecord} (hnext : options.cancelled p = false)
      (hread : item.outcome = .ok record) (happly : options.cancelled (p.ask item) = true) :
      Stops p s (item :: rest) (.cancelledBeforeApply item record) s
  /-- The record is rejected, and errors are not ignored. -/
  | rejected {p : Progress} {s s' : σ} {item : Item} {rest : List Item} {record : ChangeRecord}
      {error : DirectoryError} (hnext : options.cancelled p = false)
      (hread : item.outcome = .ok record) (happly : options.cancelled (p.ask item) = false)
      (hanswer : connection.apply s record = (.error (.directory error), s'))
      (hstop : options.ignoreErrors = false) :
      Stops p s (item :: rest) (.rejected item record error) s'
  /-- The connection fails. -/
  | disconnected {p : Progress} {s s' : σ} {item : Item} {rest : List Item}
      {record : ChangeRecord} {error : ConnectionError} (hnext : options.cancelled p = false)
      (hread : item.outcome = .ok record) (happly : options.cancelled (p.ask item) = false)
      (hanswer : connection.apply s record = (.error (.connection error), s')) :
      Stops p s (item :: rest) (.disconnected item record error) s'

/-- A load over the items that are still to come: turns, and then a stop. -/
inductive Course : Progress → σ → List Item → List Turn → Stop → σ → Prop
  /-- The load stops here. -/
  | stop {p : Progress} {s last : σ} {items : List Item} {stop : Stop}
      (hstop : Stops connection options p s items stop last) : Course p s items [] stop last
  /-- The load goes on. -/
  | turn {p p' : Progress} {s s' last : σ} {turn : Turn} {rest : List Item} {turns : List Turn}
      {stop : Stop} (hturn : Passes connection options p s turn p' s')
      (hrest : Course p' s' rest turns stop last) :
      Course p s (turn.item :: rest) (turn :: turns) stop last

end Rules

/-! ### There is one course -/

section Course

variable {σ : Type} {connection : Connection σ} {options : LoadOptions} {p p' p'' : Progress}
  {s s' s'' last last' : σ} {turn turn' : Turn} {stop stop' : Stop} {items rest : List Item}
  {turns turns' : List Turn}

/-- How a load goes on behind an item is determined. -/
lemma Passes.unique (h : Passes connection options p s turn p' s')
    (h' : Passes connection options p s turn' p'' s'') (hitem : turn.item = turn'.item) :
    turn = turn' ∧ p' = p'' ∧ s' = s'' := by
  cases h <;> cases h' <;> simp_all [Turn.item]

/-- How a load stops is determined. -/
lemma Stops.unique (h : Stops connection options p s items stop last)
    (h' : Stops connection options p s items stop' last') : stop = stop' ∧ last = last' := by
  cases h <;> cases h' <;> simp_all

lemma Passes.not_stops (h : Passes connection options p s turn p' s') :
    ¬ Stops connection options p s (turn.item :: rest) stop last := by
  intro h'
  cases h <;> cases h' <;> simp_all [Turn.item]

/-- The rules leave no choice. -/
theorem Course.unique (h : Course connection options p s items turns stop last)
    (h' : Course connection options p s items turns' stop' last') :
    turns' = turns ∧ stop' = stop ∧ last' = last := by
  induction h generalizing turns' with
  | stop hstop =>
    cases h' with
    | stop hstop' =>
      obtain ⟨rfl, rfl⟩ := hstop.unique hstop'
      exact ⟨rfl, rfl, rfl⟩
    | turn hturn _ => exact absurd hstop hturn.not_stops
  | @turn p _ s _ _ turn rest _ _ hturn _ ih =>
    generalize hitems : turn.item :: rest = items at h'
    cases h' with
    | stop hstop =>
      subst hitems
      exact absurd hstop hturn.not_stops
    | turn hturn' hrest' =>
      obtain ⟨hitem, rfl⟩ := List.cons_eq_cons.1 hitems
      obtain ⟨rfl, rfl, rfl⟩ := hturn.unique hturn' hitem
      obtain ⟨rfl, rfl, rfl⟩ := ih hrest'
      exact ⟨rfl, rfl, rfl⟩

/-- A load goes on or stops. -/
theorem exists_course (connection : Connection σ) (options : LoadOptions) (p : Progress) (s : σ)
    (items : List Item) :
    ∃ turns stop last, Course connection options p s items turns stop last := by
  induction items generalizing p s with
  | nil =>
    cases hnext : options.cancelled p with
    | true => exact ⟨[], _, _, .stop (.cancelledBeforeNext hnext)⟩
    | false => exact ⟨[], _, _, .stop (.ended hnext)⟩
  | cons item rest ih =>
    -- behind a turn there is a course by induction
    have hgo : ∀ (turn) {p' s'}, turn.item = item → Passes connection options p s turn p' s' →
        ∃ turns stop last, Course connection options p s (item :: rest) turns stop last := by
      rintro turn p' s' rfl hturn
      obtain ⟨turns, stop, last, hrest⟩ := ih p' s'
      exact ⟨turn :: turns, stop, last, .turn hturn hrest⟩
    cases hnext : options.cancelled p with
    | true => exact ⟨[], _, _, .stop (.cancelledBeforeNext hnext)⟩
    | false =>
    cases hread : item.outcome with
    | error e =>
      cases e with
      | stream e => exact ⟨[], _, _, .stop (.streamFailed hnext hread)⟩
      | parse e =>
        cases hmay : e.mayContinue with
        | false => exact ⟨[], _, _, .stop (.unreadable hnext hread (.inl hmay))⟩
        | true =>
          cases hignore : options.ignoreErrors with
          | false => exact ⟨[], _, _, .stop (.unreadable hnext hread (.inr hignore))⟩
          | true => exact hgo (.unreadable item e) rfl (.unreadable hnext hread hmay hignore)
    | ok record =>
      cases happly : options.cancelled (p.ask item) with
      | true => exact ⟨[], _, _, .stop (.cancelledBeforeApply hnext hread happly)⟩
      | false =>
        cases hanswer : connection.apply s record with
        | mk answer s' =>
        rcases answer with (e | e) | ⟨⟩
        · exact ⟨[], _, _, .stop (.disconnected hnext hread happly hanswer)⟩
        · cases hignore : options.ignoreErrors with
          | false => exact ⟨[], _, _, .stop (.rejected hnext hread happly hanswer hignore)⟩
          | true =>
            exact hgo (.rejected item record e) rfl
              (.rejected hnext hread happly hanswer hignore)
        · exact hgo (.accepted item record) rfl (.accepted hnext hread happly hanswer)

end Course

/-! ### What is reported of a course -/

/-- The account of a load: every turn counts as applied or as skipped. -/
def account (turns : List Turn) (stop : Stop) : LoadSummary :=
  ⟨turns.countP Turn.isAccepted, turns.countP fun turn => !turn.isAccepted, stop.isEnd⟩

/-- The run of a load that takes these turns and stops there. -/
def courseRun {σ : Type} (endEvents : List LogEvent) (turns : List Turn) (stop : Stop) (last : σ) :
    LoadRun σ where
  state := last
  calls := turns.flatMap Turn.calls ++ stop.calls
  events := turns.flatMap Turn.events ++ stop.events endEvents
  summary := account turns stop
  failure := stop.failure?

section Report

variable {σ : Type} {connection : Connection σ} {options : LoadOptions} {p p' : Progress}
  {s s' last : σ} {turn : Turn} {stop : Stop} {items rest : List Item} {turns : List Turn}

/-- The run with a turn in front. -/
def LoadRun.withTurn (turn : Turn) (run : LoadRun σ) : LoadRun σ :=
  (if turn.isAccepted then run.countApplied else run.countSkipped).after turn.calls turn.events

/-- What is reported of a course is that of its later turns with the first in front. -/
lemma courseRun_cons (endEvents : List LogEvent) (turn : Turn) (turns : List Turn) (stop : Stop)
    (last : σ) : courseRun endEvents (turn :: turns) stop last =
      (courseRun endEvents turns stop last).withTurn turn := by
  cases hturn : turn.isAccepted <;>
    simp [courseRun, account, LoadRun.withTurn, LoadRun.after, LoadRun.countApplied,
      LoadRun.countSkipped, hturn]

/-- The loop goes on where the rules let it. -/
lemma loadItems_of_passes (h : Passes connection options p s turn p' s')
    (endEvents : List LogEvent) (rest : List Item) :
    loadItems connection options endEvents p s (turn.item :: rest) =
      (loadItems connection options endEvents p' s' rest).withTurn turn := by
  cases h with
  | accepted hnext hread happly hanswer =>
    rw [Progress.ask] at happly
    simp only [Turn.item, loadItems, hnext, hread, happly, hanswer, Bool.false_eq_true, if_false]
    rfl
  | rejected hnext hread happly hanswer hignore =>
    rw [Progress.ask] at happly
    simp only [Turn.item, loadItems, hnext, hread, happly, hanswer, Bool.false_eq_true, if_false,
      LoadOptions.ignoresApply, hignore, if_true]
    simp [LoadRun.withTurn, LoadRun.after, Turn.isAccepted, Turn.calls, Turn.events, Progress.ask,
      Progress.apply]
  | unreadable hnext hread hmay hignore =>
    simp only [Turn.item, loadItems, hnext, hread, Bool.false_eq_true, if_false,
      LoadOptions.ignoresRead, hmay, hignore, Bool.and_self, if_true]
    rfl

/-- The loop stops where the rules tell it to. -/
lemma loadItems_of_stops (h : Stops connection options p s items stop last)
    (endEvents : List LogEvent) :
    loadItems connection options endEvents p s items = courseRun endEvents [] stop last := by
  cases h with
  | cancelledBeforeNext hnext =>
    cases items with
    | nil =>
      rw [loadItems, if_pos hnext]
      rfl
    | cons item rest =>
      rw [loadItems, if_pos hnext]
      rfl
  | ended hnext =>
    rw [loadItems, hnext, if_neg Bool.false_ne_true, courseRun, List.flatMap_nil]
    simp only [LoadRun.after, LoadRun.completed, List.append_nil, List.flatMap_nil]
    rfl
  | streamFailed hnext hread =>
    simp only [loadItems, hnext, hread, LoadOptions.ignoresRead, Bool.false_eq_true, if_false,
      LoadRun.after, LoadRun.failed, List.append_nil]
    rfl
  | @unreadable _ _ error hnext hread hstop =>
    have hignores : (options.ignoreErrors && error.mayContinue) = false := by
      rcases hstop with h | h <;> simp [h]
    simp only [loadItems, hnext, hread, LoadOptions.ignoresRead, hignores, Bool.false_eq_true,
      if_false, LoadRun.after, LoadRun.failed, List.append_nil]
    rfl
  | cancelledBeforeApply hnext hread happly =>
    rw [Progress.ask] at happly
    simp only [loadItems, hnext, hread, happly, Bool.false_eq_true, if_false, if_true]
    rfl
  | rejected hnext hread happly hanswer hstop =>
    rw [Progress.ask] at happly
    simp only [loadItems, hnext, hread, happly, hanswer, LoadOptions.ignoresApply, hstop,
      Bool.false_eq_true, if_false]
    rfl
  | disconnected hnext hread happly hanswer =>
    rw [Progress.ask] at happly
    simp only [loadItems, hnext, hread, happly, hanswer, LoadOptions.ignoresApply,
      Bool.false_eq_true, if_false]
    rfl

/-- A load reports its course. -/
theorem Course.loadItems_eq (h : Course connection options p s items turns stop last)
    (endEvents : List LogEvent) :
    loadItems connection options endEvents p s items = courseRun endEvents turns stop last := by
  induction h with
  | stop hstop => exact loadItems_of_stops hstop endEvents
  | turn hturn _ ih => rw [loadItems_of_passes hturn, ih, courseRun_cons]

/-- The items of the turns come first, in order, and then the one at which the load stopped. -/
theorem Course.exists_unread (h : Course connection options p s items turns stop last) :
    ∃ unread, items = turns.map Turn.item ++ stop.item?.toList ++ unread := by
  induction h with
  | stop hstop => cases hstop <;> exact ⟨_, rfl⟩
  | turn _ _ ih =>
    obtain ⟨unread, rfl⟩ := ih
    exact ⟨unread, by simp⟩

/-- The report of a load that takes these turns and stops there: whatever happened, the reader is
closed at the end, and only then. -/
def courseReport (mode : Mode) (closing : Option StreamError) (endEvents : List LogEvent)
    (turns : List Turn) (stop : Stop) (last : σ) : LoadReport σ where
  result := conclude mode stop.failure? (account turns stop)
  state := last
  calls := .openReader :: turns.flatMap Turn.calls ++ stop.calls ++ [.close]
  events := turns.flatMap Turn.events ++ stop.events endEvents ++
    (if closing.isSome then [.error "I/O error closing the input stream reader"] else []) ++
    [.info "load finished"]

/-- A load that takes a course is reported by it. -/
lemma Course.load_eq {state : σ} {source : LoadSource} {feed : Feed}
    (hopened : source.opened = .ok feed)
    (h : Course connection options { octets := feed.startPosition } state feed.items turns stop
      last) :
    load connection state source options =
      courseReport options.mode source.closing feed.endEvents turns stop last := by
  simp only [load, hopened, h.loadItems_eq, courseRun, courseReport]
  cases source.closing <;> rfl

/-- The end of a source is not reached past an item that it cannot be gone on behind. -/
lemma Course.isEnd_eq_false (h : Course connection options p s items turns stop last) {item : Item}
    (hitem : item ∈ items) {error : ParseError} (hread : item.outcome = .error (.parse error))
    (hfatal : error.mayContinue = false) : stop.isEnd = false := by
  induction h with
  | stop hstop =>
    cases hstop with
    | ended hnext => exact absurd hitem List.not_mem_nil
    | _ => rfl
  | turn hturn _ ih =>
    rcases List.mem_cons.1 hitem with rfl | hrest
    · cases hturn <;> simp_all [Turn.item]
    · exact ih hrest

/-- A transfer that answers with a summary answers with its own. -/
lemma eq_of_conclude {α : Type} {mode : Mode} {failure : Option Failure} {summary summary' : α}
    (h : conclude mode failure summary = .ok summary') : summary' = summary := by
  cases mode <;> cases failure <;> cases h <;> rfl

/-- A load of a source that cannot be opened is not complete. -/
lemma incomplete_of_unopened {state : σ} {source : LoadSource} {e : ReadError}
    (hopened : source.opened = .error e) {summary : LoadSummary}
    (h : (load connection state source options).result = .ok summary) :
    summary.complete = false := by
  simp only [load, hopened] at h
  rw [eq_of_conclude h]

/-- A load of a source that cannot be read to its end is not complete. -/
theorem incomplete_of_fatal {state : σ} {source : LoadSource} {feed : Feed}
    (hopened : source.opened = .ok feed) {item : Item} (hitem : item ∈ feed.items)
    {error : ParseError} (hread : item.outcome = .error (.parse error))
    (hfatal : error.mayContinue = false) {summary : LoadSummary}
    (h : (load connection state source options).result = .ok summary) :
    summary.complete = false := by
  obtain ⟨turns, stop, last, hcourse⟩ :=
    exists_course connection options { octets := feed.startPosition } state feed.items
  rw [hcourse.load_eq hopened] at h
  rw [eq_of_conclude h]
  exact hcourse.isEnd_eq_false hitem hread hfatal

end Report

/-- If the source cannot be opened, nothing else is done.  Else the load takes its one course: its
calls, its account, its answer and what is told are those of the turns and the stop, and the items
that it took from the source are theirs, in order, each counted as applied, counted as skipped, or
the one at which it stopped. -/
theorem load_course {σ : Type} (connection : Connection σ) (state : σ) (source : LoadSource)
    (options : LoadOptions) :
    match source.opened with
    | .error e =>
      load connection state source options =
        ⟨conclude options.mode (some e.toFailure) {}, state, [.openReader],
          [.error "Could not open the reader"]⟩
    | .ok feed =>
      ∃ turns stop last,
        Course connection options { octets := feed.startPosition } state feed.items turns stop
          last ∧
        (∀ turns' stop' last', Course connection options { octets := feed.startPosition } state
          feed.items turns' stop' last' → turns' = turns ∧ stop' = stop ∧ last' = last) ∧
        load connection state source options =
          courseReport options.mode source.closing feed.endEvents turns stop last ∧
        (∃ unread, feed.items = turns.map Turn.item ++ stop.item?.toList ++ unread) ∧
        (account turns stop).applied + (account turns stop).skipped = turns.length := by
  cases hopened : source.opened with
  | error e => simp only [load, hopened]
  | ok feed =>
    obtain ⟨turns, stop, last, hcourse⟩ :=
      exists_course connection options { octets := feed.startPosition } state feed.items
    refine ⟨turns, stop, last, hcourse, fun _ _ _ h => hcourse.unique h, hcourse.load_eq hopened,
      hcourse.exists_unread, ?_⟩
    rw [List.length_eq_countP_add_countP Turn.isAccepted]
    simp [account]

end DirectoryExchange.Transfer

import DirectoryExchange.Format
import DirectoryExchange.Proofs.Dsml.Pace
import DirectoryExchange.Proofs.Ldif.Pace
import DirectoryExchange.Proofs.Transfer.Course

/-!
# Reading and loading end

A reader comes to an end on every source and stays there, and a load, which asks it for one item
after the other, ends with it, even if it passes over every error that it may (`callAll_open?`).
-/

namespace DirectoryExchange

open Ldif (isFinal)

namespace Transfer

/-- A load asks for one item in every turn. -/
lemma count_next_turns (turns : List Turn) :
    (turns.flatMap Turn.calls).count .next = turns.length := by
  induction turns with
  | nil => rfl
  | cons turn turns ih =>
    have hturn : turn.calls.count .next = 1 := by cases turn <;> simp [Turn.calls]
    rw [List.flatMap_cons, List.count_append, hturn, ih, List.length_cons, Nat.add_comm]

/-- A load asks for the items of its turns, and for one more item or the end, where it stops. -/
lemma Course.count_next_le {σ : Type} {connection : Connection σ} {options : LoadOptions}
    {p : Progress} {s last : σ} {items : List Item} {turns : List Turn} {stop : Stop}
    (h : Course connection options p s items turns stop last) :
    (turns.flatMap Turn.calls ++ stop.calls).count .next ≤ items.length + 1 := by
  have hstop : stop.calls.count .next ≤ 1 := by
    cases stop <;> simp [Stop.calls]
  obtain ⟨unread, hitems⟩ := h.exists_unread
  rw [List.count_append, count_next_turns, hitems, List.length_append, List.length_append,
    List.length_map]
  omega

end Transfer

namespace Format

/-- What is read in either format comes on. -/
lemma advances_open? {format : Format} {source : Source} {f : Feed}
    (h : format.open? source = .ok f) :
    Advances source.bytes.length f.startPosition f.items f.endPosition := by
  cases format with
  | ldif =>
    cases h
    rw [Ldif.feed, Ldif.startPosition_feedRecords]
    exact Ldif.advances_feed source
  | dsml => exact Dsml.advances_open? h

/-- Whatever a reader has been asked for, it comes to an end and stays there.  Once it has been
closed, or has given the end or an error behind which nothing is read, it gives nothing and takes
nothing from the stream.  With any other item it has taken more octets than before, never more than
there are, so it gives at most as many items as there are octets, and one more.  A load asks for as
many, and for the end, and closes the reader, even if it passes over errors. -/
theorem callAll_open? {format : Format} {source : Source} {feed : Feed}
    (hopen : format.open? source = .ok feed) (calls : List Reader.Call) :
    let run := (Reader.ofFeed feed).callAll calls
    (∀ c, c.ends (run.2.call c).1 = true → ∀ behind,
      ((run.2.call c).2.callAll behind).1 = behind.map (fun _ => none) ∧
        ((run.2.call c).2.callAll behind).2.position = (run.2.call c).2.position) ∧
      (∀ item r, run.2.next = (some item, r) → isFinal item = false →
        run.2.position < r.position) ∧
      run.2.position ≤ source.bytes.length ∧
      (run.1.filterMap id).length ≤ source.bytes.length + 1 ∧
      ∀ {σ : Type} (connection : Connection σ) (state : σ) (closing : Option StreamError)
        (options : Transfer.LoadOptions), ∃ between,
        (Transfer.load connection state ⟨format.open? source, closing⟩ options).calls =
            .openReader :: between ++ [.close] ∧
          between.count .next ≤ source.bytes.length + 2 := by
  intro run
  have hadvances := advances_open? hopen
  -- the positions of the items advance, and every call keeps it that way
  have hpaced : (Reader.ofFeed feed).Paced source.bytes.length :=
    ⟨hadvances.le, fun _ => hadvances⟩
  have hrun : run.2.Paced source.bytes.length := hpaced.callAll calls
  refine ⟨?_, ?_, hrun.position_le, ?_, ?_⟩
  · intro c hends behind
    refine Reader.callAll_of_halted ?_ behind
    rcases (hrun.call c).2 with ⟨-, hhalted⟩ | ⟨item, rfl, hanswer, hfinal, -⟩
    · exact hhalted
    · rw [hanswer, Reader.Call.ends, hfinal] at hends
      cases hends
  · intro item r hnext hfinal
    have hcall : run.2.call .next = (some item, r) := hnext
    have hstep := (hrun.call .next).2
    rw [hcall] at hstep
    rcases hstep with ⟨hends, -⟩ | ⟨-, -, -, -, hlt⟩
    · rw [Reader.Call.ends, hfinal] at hends
      cases hends
    · exact hlt
  · exact Nat.le_trans (Nat.le_add_right _ _) (hpaced.length_callAll_le calls)
  · intro σ connection state closing options
    obtain ⟨turns, stop, last, hcourse⟩ := Transfer.exists_course connection options
      { octets := feed.startPosition } state feed.items
    rw [hcourse.load_eq hopen]
    refine ⟨turns.flatMap Transfer.Turn.calls ++ stop.calls, by simp [Transfer.courseReport], ?_⟩
    have hcount := hcourse.count_next_le
    have hlength := hadvances.length_le
    omega

/-- A source with nothing but a continuation line gives one error, and then ends. -/
theorem callAll_open?_orphan :
    let source : Source :=
      { bytes := [0x20, 0x61, 0x0A, 0x0A], failure := some ⟨"read failed"⟩ }
    ∃ feed, Format.ldif.open? source = .ok feed ∧
      let run := (Reader.ofFeed feed).callAll [.next, .next]
      run.1.map (·.map isFinal) = [some false, some true] ∧ run.2.position = 4 ∧
        ∀ behind, (run.2.callAll behind).1 = behind.map (fun _ => none) ∧
          (run.2.callAll behind).2.position = 4 := by
  intro source
  have hopen : Format.ldif.open? source = .ok (Ldif.feed source) := rfl
  obtain ⟨hends, -⟩ := callAll_open? hopen [.next]
  exact ⟨_, hopen, by decide +kernel, by decide +kernel, hends .next (by decide +kernel)⟩

end Format

end DirectoryExchange

/-
# Where the data of a reader ends

A reader goes by the bytes that it takes. What stands behind them changes nothing, and
if some of them are missing it reports that the data ended. Both are kept by every way
of putting readers together, so they are stated once for each of these ways. A format
whose reader also looks for the end of its data is prefix free: data that is accepted is
refused as soon as it is cut short or goes on.
-/

import Lookout.Proofs.Bytes.Grammar

namespace Lookout.Reader

variable {α β : Type}

/-- Of every part of the run that stops before the run does, the reader reports that the
data ended, at an offset that is not behind the part. -/
def CutShort (reader : Reader α) (position : Nat) (run : Bytes) : Prop :=
  ∀ front back, run = front ++ back → back ≠ [] →
    ∃ offset ≤ position + front.length, reader ⟨position, front⟩ = .error (.unexpectedEnd offset)

/-- The reader takes this run from this position on for the value, whatever stands behind
it, and nothing less. -/
structure Takes (reader : Reader α) (position : Nat) (run : Bytes) (value : α) : Prop where
  reads : ∀ rest, reader ⟨position, run ++ rest⟩ = .ok (value, ⟨position + run.length, rest⟩)
  cutShort : CutShort reader position run

/-- Wherever the reader succeeds, it takes a run off the front. -/
def Delimited (reader : Reader α) : Prop :=
  ∀ cursor value next, reader cursor = .ok (value, next) →
    ∃ run, cursor.rest = run ++ next.rest ∧ Takes reader cursor.position run value

/-- Wherever the reader succeeds, it takes up all of the data, and nothing less. Of bytes
that are left over it reports how many they are. -/
structure Closed (reader : Reader α) (leftOver : Nat → ClassFileError) : Prop where
  cutShort : ∀ {cursor value next}, reader cursor = .ok (value, next) →
    CutShort reader cursor.position cursor.rest
  goesOn : ∀ {cursor value next}, reader cursor = .ok (value, next) → ∀ {more}, more ≠ [] →
    reader ⟨cursor.position, cursor.rest ++ more⟩ = .error (leftOver more.length)

/-- Data that is accepted is refused as ended when it is cut short, at an offset that is
not behind the cut, and refused for the bytes that are left over when it goes on. -/
structure PrefixFree (decode : Bytes → Except ClassFileError α)
    (leftOver : Nat → ClassFileError) : Prop where
  cutShort : ∀ {data value}, decode data = .ok value → ∀ {front}, front <+: data → front ≠ data →
    ∃ offset ≤ front.length, decode front = .error (.unexpectedEnd offset)
  goesOn : ∀ {data value}, decode data = .ok value → ∀ {more}, more ≠ [] →
    decode (data ++ more) = .error (leftOver more.length)

/-! ### Sequences -/

theorem bind_of_ok {first : Reader α} {second : α → Reader β} {cursor next : Cursor} {value : α}
    (success : first cursor = .ok (value, next)) :
    (first >>= second) cursor = second value next := by
  show Except.bind (first cursor) (fun pair => second pair.1 pair.2) = _
  rw [success]
  rfl

theorem bind_of_error {first : Reader α} {second : α → Reader β} {cursor : Cursor}
    {fault : ClassFileError} (failed : first cursor = .error fault) :
    (first >>= second) cursor = .error fault := by
  show Except.bind (first cursor) (fun pair => second pair.1 pair.2) = _
  rw [failed]
  rfl

section Bind

variable {first : Reader α} {second : α → Reader β} {position : Nat} {run : Bytes} {middle : α}

/-- The data ends in the run of the first part, or in that of the second, where the first
one has been read. -/
theorem Takes.cutShort_bind (takes : Takes first position run middle) {more : Bytes}
    (cutLater : CutShort (second middle) (position + run.length) more) :
    CutShort (first >>= second) position (run ++ more) := by
  have inSecond (front : Bytes) {back : Bytes} (same : more = front ++ back) (missing : back ≠ []) :
      ∃ offset ≤ position + (run ++ front).length,
        (first >>= second) ⟨position, run ++ front⟩ = .error (.unexpectedEnd offset) := by
    obtain ⟨offset, inside, failed⟩ := cutLater front back same missing
    refine ⟨offset, by rw [List.length_append]; omega, ?_⟩
    rw [bind_of_ok (takes.reads front), failed]
  intro front back same missing
  rcases List.append_eq_append_iff.mp same with ⟨later, rfl, split⟩ | ⟨lacking, rfl, rfl⟩
  · exact inSecond later split missing
  · by_cases whole : lacking = []
    · subst whole
      simpa using inSecond [] rfl missing
    · obtain ⟨offset, inside, failed⟩ := takes.cutShort front lacking rfl whole
      exact ⟨offset, inside, bind_of_error failed⟩

theorem Takes.bind (takes : Takes first position run middle) {more : Bytes} {value : β}
    (takesLater : Takes (second middle) (position + run.length) more value) :
    Takes (first >>= second) position (run ++ more) value where
  reads rest := by
    rw [List.append_assoc, bind_of_ok (takes.reads (more ++ rest)), takesLater.reads rest,
      List.length_append, Nat.add_assoc]
  cutShort := takes.cutShort_bind takesLater.cutShort

end Bind

/-- What a sequence reads, its first part took from the front, and its second part read
behind that. -/
private theorem Delimited.exists_run {first : Reader α} {second : α → Reader β}
    (delimited : Delimited first) {cursor next : Cursor} {value : β}
    (success : (first >>= second) cursor = .ok (value, next)) :
    ∃ run middle rest, cursor.rest = run ++ rest ∧ Takes first cursor.position run middle ∧
      second middle ⟨cursor.position + run.length, rest⟩ = .ok (value, next) := by
  obtain ⟨middle, between, firstSuccess, secondSuccess⟩ := bind_eq_ok_iff.mp success
  obtain ⟨run, rest, takes⟩ := delimited cursor middle between firstSuccess
  have reads := takes.reads between.rest
  rw [← rest, firstSuccess, Except.ok.injEq, Prod.mk.injEq] at reads
  exact ⟨run, middle, between.rest, rest, takes, by rw [← reads.2, secondSuccess]⟩

theorem Delimited.bind {first : Reader α} {second : α → Reader β} (delimited : Delimited first)
    (delimitedLater : ∀ value, Delimited (second value)) : Delimited (first >>= second) := by
  intro cursor value next success
  obtain ⟨run, middle, rest, same, takes, later⟩ := delimited.exists_run success
  obtain ⟨more, sameLater, takesLater⟩ := delimitedLater middle _ value next later
  refine ⟨run ++ more, ?_, takes.bind takesLater⟩
  rw [same, List.append_assoc]
  exact congrArg (run ++ ·) sameLater

theorem Delimited.closed {first : Reader α} {second : α → Reader β}
    {leftOver : Nat → ClassFileError} (delimited : Delimited first)
    (closedLater : ∀ value, Closed (second value) leftOver) :
    Closed (first >>= second) leftOver where
  cutShort success := by
    obtain ⟨run, middle, rest, same, takes, later⟩ := delimited.exists_run success
    rw [same]
    exact takes.cutShort_bind ((closedLater middle).cutShort later)
  goesOn success more missing := by
    obtain ⟨run, middle, rest, same, takes, later⟩ := delimited.exists_run success
    rw [same, List.append_assoc, bind_of_ok (takes.reads (rest ++ more))]
    exact (closedLater middle).goesOn later missing

/-- A value that is handed on takes no bytes. -/
theorem delimited_pure (value : α) : Delimited (pure value : Reader α) := by
  intro cursor other next success
  cases success
  exact ⟨[], rfl, fun _ => rfl, fun _ _ same missing =>
    absurd (List.append_eq_nil_iff.mp same.symm).2 missing⟩

theorem delimited_fail (fault : ClassFileError) : Delimited (fail fault : Reader α) :=
  fun _ _ _ success => nomatch success

/-- A reader that closes is run over whole data. -/
theorem Closed.prefixFree {reader : Reader α} {leftOver : Nat → ClassFileError}
    (closed : Closed reader leftOver) : PrefixFree (readAll reader) leftOver := by
  have success {data : Bytes} {value : α} (read : readAll reader data = .ok value) :
      ∃ next, reader ⟨0, data⟩ = .ok (value, next) := by
    rw [readAll, Cursor.start] at read
    cases result : reader ⟨0, data⟩ with
    | error fault =>
        rw [result] at read
        cases read
    | ok pair =>
        rw [result] at read
        cases read
        exact ⟨pair.2, rfl⟩
  constructor
  · rintro data value read front ⟨back, rfl⟩ proper
    obtain ⟨next, read⟩ := success read
    have missing : back ≠ [] := fun nothing => proper (by rw [nothing, List.append_nil])
    obtain ⟨offset, inside, failed⟩ := closed.cutShort read front back rfl missing
    refine ⟨offset, by simpa using inside, ?_⟩
    rw [readAll, Cursor.start, failed]
    rfl
  · intro data value read more missing
    obtain ⟨next, read⟩ := success read
    rw [readAll, Cursor.start, closed.goesOn read missing]
    rfl

/-! ### Single items -/

/-- A reader that wants a number of bytes, and says where it stands if it has fewer. -/
theorem Accepts.delimited {reader : Reader α} {spells : Bytes → α → Prop}
    (accepts : Accepts reader spells) (width : Nat)
    (wide : ∀ {run value}, spells run value → run.length = width)
    (ends : ∀ position {front : Bytes}, front.length < width →
      reader ⟨position, front⟩ = .error (.unexpectedEnd position)) : Delimited reader := by
  intro cursor value next success
  obtain ⟨run, spelled, rest, -⟩ := accepts.consumed success
  refine ⟨run, rest, fun later => accepts.reads spelled cursor.position later, ?_⟩
  rintro front back rfl missing
  have short := wide spelled
  have some := List.length_pos_iff.mpr missing
  rw [List.length_append] at short
  exact ⟨cursor.position, Nat.le_add_right _ _, ends cursor.position (by omega)⟩

theorem delimited_byte : Delimited byte := by
  refine accepts_byte.delimited 1 (fun spelled => by rw [spelled]; rfl) ?_
  intro position front short
  obtain rfl : front = [] := List.length_eq_zero_iff.mp (by omega)
  rfl

theorem delimited_word16 : Delimited word16 := by
  refine accepts_word16.delimited 2 (fun spelled => by rw [spelled]; rfl) ?_
  rintro position (_ | ⟨high, _ | ⟨low, rest⟩⟩) short
  · rfl
  · rfl
  · simp only [List.length_cons] at short
    omega

theorem delimited_word32 : Delimited word32 := by
  refine accepts_word32.delimited 4 (fun spelled => by rw [spelled]; rfl) ?_
  rintro position (_ | ⟨b3, _ | ⟨b2, _ | ⟨b1, _ | ⟨b0, rest⟩⟩⟩⟩) short
  · rfl
  · rfl
  · rfl
  · rfl
  · simp only [List.length_cons] at short
    omega

theorem delimited_take (count : Nat) : Delimited (take count) := by
  refine (accepts_take count).delimited count
    (fun ⟨same, counted⟩ => by rw [same, counted]) ?_
  intro position front short
  have fewer : (front.take count).length ≠ count := by
    rw [List.length_take]
    omega
  simp only [take, if_neg fewer]

theorem delimited_word64 : Delimited word64 :=
  delimited_word32.bind fun _ => delimited_word32.bind fun _ => delimited_pure _

theorem delimited_blob : Delimited blob :=
  delimited_word32.bind fun length => delimited_take length.toNat

/-- A reader that refuses whatever is left, and counts it. -/
theorem closed_of_refuses {reader : Reader α} {leftOver : Nat → ClassFileError}
    (refuses : ∀ position first rest,
      reader ⟨position, first :: rest⟩ = .error (leftOver (rest.length + 1))) :
    Closed reader leftOver := by
  have atEnd {cursor next : Cursor} {value : α} (success : reader cursor = .ok (value, next)) :
      cursor.rest = [] := by
    rcases cursor with ⟨position, _ | ⟨first, rest⟩⟩
    · rfl
    · cases (refuses position first rest).symm.trans success
  constructor
  · intro cursor value next success front back same missing
    rw [atEnd success] at same
    exact absurd (List.append_eq_nil_iff.mp same.symm).2 missing
  · intro cursor value next success more missing
    obtain ⟨first, rest, rfl⟩ := List.exists_cons_of_ne_nil missing
    rw [atEnd success, List.nil_append, refuses, List.length_cons]

theorem closed_attributeEnd (name : String) (value : α) :
    Closed (attributeEnd name >>= fun _ => pure value)
      fun count => .malformedAttribute name (.trailing count) :=
  closed_of_refuses fun _ _ _ => rfl

/-! ### Tables -/

section Tables

variable {item : Reader α}

private theorem delimited_manyOnto (delimited : Delimited item) (done : List α) (count : Nat) :
    Delimited (manyOnto item done count) := by
  induction count generalizing done with
  | zero => exact delimited_pure done.reverse
  | succ count ih =>
      have sequence : manyOnto item done (count + 1) =
          item >>= fun value => manyOnto item (value :: done) count := by
        funext cursor
        rw [manyOnto]
        cases read : item cursor with
        | error fault => rw [bind_of_error read]
        | ok pair => rw [bind_of_ok read]
      rw [sequence]
      exact delimited.bind fun value => ih (value :: done)

theorem Delimited.table (delimited : Delimited item) : Delimited (Reader.table item) :=
  delimited_word16.bind fun count => delimited_manyOnto delimited [] count.toNat

end Tables

end Lookout.Reader

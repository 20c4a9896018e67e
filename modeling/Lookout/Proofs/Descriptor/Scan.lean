/-
# Reading descriptors by byte offsets

The same readers, working on the bytes of the whole text with an offset that moves on.
Single bytes tell what comes next; only the names of classes and what stands behind the
parameters are cut out of the text, and a cut inside a character would leave the reader
without any result. It never comes to that: on every text the scan comes to what reading
characters comes to. The offset grows with each parameter, so the scan also ends.
-/

import Lookout.Proofs.Descriptor.RoundTrip
import Lookout.Proofs.Text.ByteOffsets

namespace Lookout

namespace FieldType

/-- The type that is spelled by this single character. -/
def primitive? : Char → Option FieldType
  | 'B' => some .byte
  | 'C' => some .char
  | 'D' => some .double
  | 'F' => some .float
  | 'I' => some .int
  | 'J' => some .long
  | 'S' => some .short
  | 'Z' => some .boolean
  | _ => none

/-- How many bytes from an offset on are opening brackets. -/
def bracketsAt (text : String) (offset : Nat) : Nat :=
  (((Text.utf8 text).drop offset).takeWhile fun byte => Char.ofUInt8 byte == '[').length

/-- Read a type that is not an array from a byte offset on, and tell the offset behind
it. There is no result if a character is cut. -/
def scanInnermostAt (text : String) (offset : Nat) :
    Option (Except ClassFileError (FieldType × Nat)) :=
  let refused := .error (.invalidDescriptor text)
  match Text.codeAt? text offset with
  | none => some refused
  | some code =>
    if code = 'L' then
      (Text.from? text (offset + 1)).bind fun behind =>
        match Text.offsetOf? ';' behind with
        | none => some refused
        | some length =>
          (Text.cut? text (offset + 1) length).map fun name =>
            if isObjectName name.toList then .ok (.object name, offset + 1 + length + 1)
            else refused
    else
      match primitive? code with
      | some type => some (.ok (type, offset + 1))
      | none => some refused

/-- Read one type from a byte offset on, and tell the offset behind it. -/
def scanAt (text : String) (offset : Nat) : Option (Except ClassFileError (FieldType × Nat)) :=
  let depth := bracketsAt text offset
  if maxDimensions < depth then some (.error (.invalidDescriptor text))
  else
    (scanInnermostAt text (offset + depth)).map fun scanned =>
      scanned.map fun (type, stop) => (type.nested depth, stop)

/-- The type that the text spells from end to end. -/
def scan (text : String) : Option (Except ClassFileError FieldType) :=
  (scanAt text 0).map fun scanned =>
    scanned.bind fun (type, stop) =>
      if stop = text.utf8ByteSize then .ok type else .error (.invalidDescriptor text)

/-- A type that is read takes at least one byte. -/
theorem lt_of_scanAt {text : String} {offset stop : Nat} {type : FieldType}
    (success : scanAt text offset = some (.ok (type, stop))) : offset < stop := by
  have innermost {start stop : Nat} {type : FieldType}
      (success : scanInnermostAt text start = some (.ok (type, stop))) : start < stop := by
    unfold scanInnermostAt at success
    dsimp only at success
    split at success
    · cases success
    split at success
    · obtain ⟨behind, -, found⟩ := Option.bind_eq_some_iff.mp success
      split at found
      · cases found
      · obtain ⟨name, -, named⟩ := Option.map_eq_some_iff.mp found
        split at named
        · cases named
          omega
        · cases named
    · split at success
      · cases success
        exact Nat.lt_succ_self start
      · cases success
  unfold scanAt at success
  dsimp only at success
  split at success
  · cases success
  · obtain ⟨scanned, found, same⟩ := Option.map_eq_some_iff.mp success
    cases scanned with
    | error fault => cases same
    | ok scanned =>
        cases same
        have beyond := innermost found
        omega

/-! ### Behind a known part -/

/-- What a scan from an offset on comes to, given what is read from there. -/
def scanned (text : String) (offset : Nat) :
    Option (FieldType × List Char) → Except ClassFileError (FieldType × Nat)
  | none => .error (.invalidDescriptor text)
  | some (type, _) => .ok (type, offset + type.text.utf8ByteSize)

theorem primitive?_eq_none {character : Char} (large : 128 ≤ character.toNat) :
    primitive? character = none := by
  unfold primitive?
  split
  case h_9 => rfl
  all_goals
    revert large
    decide

/-- Without an `L` in front the first character tells the type. -/
theorem readInnermost_cons {character : Char} (noObject : character ≠ 'L') (rest : List Char) :
    readInnermost (character :: rest) = (primitive? character).map fun type => (type, rest) := by
  unfold primitive?
  split
  case h_9 =>
    unfold readInnermost
    split <;> simp_all
  all_goals rfl

theorem utf8ByteSize_text_of_primitive? {character : Char} {type : FieldType}
    (spelled : primitive? character = some type) : type.text.utf8ByteSize = 1 := by
  unfold primitive? at spelled
  split at spelled
  case h_9 => cases spelled
  all_goals
    cases spelled
    rfl

theorem utf8ByteSize_text_object (name : String) :
    (FieldType.object name).text.utf8ByteSize = 1 + name.utf8ByteSize + 1 := by
  have text_eq : (FieldType.object name).text = "L" ++ name ++ ";" := by
    rw [← String.toList_inj]
    simp [text, chars]
  rw [text_eq, String.utf8ByteSize_append, String.utf8ByteSize_append]
  rfl

theorem utf8ByteSize_text_array (element : FieldType) :
    (FieldType.array element).text.utf8ByteSize = 1 + element.text.utf8ByteSize := by
  have text_eq : (FieldType.array element).text = "[" ++ element.text := by
    rw [← String.toList_inj]
    simp [text, chars]
  rw [text_eq, String.utf8ByteSize_append]
  rfl

theorem utf8ByteSize_text_nested (depth : Nat) (type : FieldType) :
    (type.nested depth).text.utf8ByteSize = depth + type.text.utf8ByteSize := by
  induction depth with
  | zero => exact (Nat.zero_add _).symm
  | succ depth ih =>
      rw [nested_succ, utf8ByteSize_text_array, ih]
      omega

/-- The scan of an object type cuts the text behind the `L`, which is one byte, and in
front of the semicolon and so never inside a character. -/
theorem scanInnermostAt_object (front : String) (rest : List Char) :
    scanInnermostAt (front ++ String.ofList ('L' :: rest)) front.utf8ByteSize =
      some (scanned (front ++ String.ofList ('L' :: rest)) front.utf8ByteSize
        (readObject rest)) := by
  have opened : front ++ String.ofList ('L' :: rest) = (front ++ "L") ++ String.ofList rest := by
    rw [← String.toList_inj]
    simp
  have size : (front ++ "L").utf8ByteSize = front.utf8ByteSize + 1 :=
    String.utf8ByteSize_append
  have code :
      Text.codeAt? (front ++ String.ofList ('L' :: rest)) front.utf8ByteSize = some 'L' := by
    rw [Text.codeAt?_append]
    exact (Text.codeAt?_cons_eq_some_iff (by decide) 'L' rest).mpr rfl
  unfold scanInnermostAt
  rw [code]
  dsimp only
  rw [if_pos rfl, opened, ← size, Text.from?_append, Option.bind_some]
  by_cases ended : ';' ∈ rest
  · obtain ⟨name, tail, rfl, unended⟩ := List.eq_append_cons_of_mem ended
    have cut : Text.cut? (front ++ "L" ++ String.ofList (name ++ ';' :: tail))
        (front ++ "L").utf8ByteSize (String.ofList name).utf8ByteSize =
          some (String.ofList name) := by
      rw [String.ofList_append]
      exact Text.cut?_append _ _ _
    rw [Text.offsetOf?_append unended, readObject_append unended]
    dsimp only
    rw [cut, Option.map_some, String.toList_ofList, size]
    split
    · rw [scanned, utf8ByteSize_text_object, Nat.add_assoc, Nat.add_assoc, Nat.add_assoc]
    · rfl
  · rw [Text.offsetOf?_eq_none ended, readObject_eq_none ended]
    rfl

theorem scanInnermostAt_append (front : String) (rest : List Char) :
    scanInnermostAt (front ++ String.ofList rest) front.utf8ByteSize =
      some (scanned (front ++ String.ofList rest) front.utf8ByteSize (readInnermost rest)) := by
  cases rest with
  | nil =>
      unfold scanInnermostAt
      rw [Text.codeAt?_append, Text.codeAt?_nil]
      rfl
  | cons character rest =>
      by_cases object : character = 'L'
      · subst object
        exact scanInnermostAt_object front rest
      · obtain ⟨code, present, same⟩ := Text.codeAt?_cons character rest
        have noObject : code ≠ 'L' := by
          rcases same with rfl | ⟨large, -⟩
          · exact object
          · rintro rfl
            exact absurd large (by decide)
        have sameType : primitive? code = primitive? character := by
          rcases same with rfl | ⟨large, large'⟩
          · rfl
          · rw [primitive?_eq_none large, primitive?_eq_none large']
        unfold scanInnermostAt
        rw [Text.codeAt?_append, present, readInnermost_cons object]
        dsimp only
        rw [if_neg noObject, sameType]
        cases spelled : primitive? character with
        | none => rfl
        | some type =>
            dsimp only
            rw [Option.map_some, scanned, utf8ByteSize_text_of_primitive? spelled]

/-- Brackets are single bytes, and no other character has such a byte in front. -/
theorem bracketsAt_append (front : String) (rest : List Char) :
    bracketsAt (front ++ String.ofList rest) front.utf8ByteSize =
      (rest.takeWhile (· == '[')).length := by
  unfold bracketsAt
  rw [Text.drop_utf8_append]
  induction rest with
  | nil => rfl
  | cons character rest ih =>
      by_cases bracket : character = '['
      · subst bracket
        have encoded : Text.utf8 (String.ofList ('[' :: rest)) =
            0x5B :: Text.utf8 (String.ofList rest) := by
          rw [Text.utf8_ofList, Text.utf8_ofList]
          rfl
        rw [encoded, List.takeWhile_cons_of_pos (by decide), List.takeWhile_cons_of_pos (by decide),
          List.length_cons, List.length_cons, ih]
      · obtain ⟨first, more, encoded, same⟩ := Text.exists_utf8_cons character rest
        have noBracket : Char.ofUInt8 first ≠ '[' := by
          rcases same with same | ⟨large, -⟩
          · rwa [same]
          · intro same
            rw [same] at large
            exact absurd large (by decide)
        rw [encoded, List.takeWhile_cons_of_neg (by simpa using noBracket),
          List.takeWhile_cons_of_neg (by simpa using bracket)]
        rfl

theorem utf8ByteSize_brackets (text : List Char) :
    (String.ofList (text.takeWhile (· == '['))).utf8ByteSize =
      (text.takeWhile (· == '[')).length := by
  induction text with
  | nil => rfl
  | cons character text ih =>
      by_cases bracket : character = '['
      · subst bracket
        rw [List.takeWhile_cons_of_pos (by decide), List.length_cons, ← ih,
          Text.utf8ByteSize_ofList_cons, Nat.add_comm]
        rfl
      · rw [List.takeWhile_cons_of_neg (by simpa using bracket)]
        rfl

theorem scanAt_append (front : String) (rest : List Char) :
    scanAt (front ++ String.ofList rest) front.utf8ByteSize =
      some (scanned (front ++ String.ofList rest) front.utf8ByteSize (read rest)) := by
  have opened : front ++ String.ofList rest =
      (front ++ String.ofList (rest.takeWhile (· == '['))) ++
        String.ofList (rest.dropWhile (· == '[')) := by
    rw [String.append_assoc, ← String.ofList_append, List.takeWhile_append_dropWhile]
  have size : front.utf8ByteSize + (rest.takeWhile (· == '[')).length =
      (front ++ String.ofList (rest.takeWhile (· == '['))).utf8ByteSize := by
    rw [String.utf8ByteSize_append, utf8ByteSize_brackets]
  unfold scanAt read
  dsimp only
  rw [bracketsAt_append]
  by_cases shallow : (rest.takeWhile (· == '[')).length ≤ maxDimensions
  · rw [if_neg (Nat.not_lt.mpr shallow), if_pos shallow, size, opened, scanInnermostAt_append,
      Option.map_some, ← size]
    cases readInnermost (rest.dropWhile (· == '[')) with
    | none => rfl
    | some found =>
        rw [Option.map_some, scanned, scanned, utf8ByteSize_text_nested, ← Nat.add_assoc]
        rfl
  · rw [if_pos (Nat.not_le.mp shallow), if_neg shallow]
    rfl

/-- The scan of a whole text comes to what reading its characters comes to. -/
theorem scan_eq (text : String) : scan text = some (ofText text) := by
  have whole := scanAt_append "" text.toList
  rw [String.empty_append, String.ofList_toList] at whole
  unfold scan ofText
  change (scanAt text "".utf8ByteSize).map _ = _
  rw [whole, Option.map_some]
  cases found : read text.toList with
  | none => rfl
  | some reading =>
      obtain ⟨type, rest⟩ := reading
      obtain ⟨-, spelled⟩ := read_eq_some_iff.mp found
      have text_eq : text = type.text ++ String.ofList rest := by
        rw [← String.toList_inj, String.toList_append, spelled, FieldType.text,
          String.toList_ofList, String.toList_ofList]
      have stop : "".utf8ByteSize + type.text.utf8ByteSize = text.utf8ByteSize ↔ rest = [] := by
        rw [text_eq, String.utf8ByteSize_append, ← String.ofList_eq_empty_iff,
          ← String.utf8ByteSize_eq_zero_iff]
        change 0 + _ = _ ↔ _
        omega
      dsimp only [scanned, Except.bind]
      cases rest with
      | nil => rw [if_pos (stop.mpr rfl)]
      | cons character rest =>
          rw [if_neg fun same => List.cons_ne_nil _ _ (stop.mp same)]

end FieldType

namespace MethodDescriptor

/-- Read parameter types from a byte offset on, behind those already `done`, which are
kept in reverse, and tell the offset of the closing parenthesis. -/
def scanParametersOnto (text : String) (done : List FieldType) (offset : Nat) :
    Option (Except ClassFileError (List FieldType × Nat)) :=
  match here : Text.codeAt? text offset with
  | none => some (.error (.invalidDescriptor text))
  | some code =>
    if code = ')' then some (.ok (done.reverse, offset))
    else
      match found : FieldType.scanAt text offset with
      | none => none
      | some (.error fault) => some (.error fault)
      | some (.ok (type, next)) =>
        have := Text.lt_of_codeAt? here
        have := FieldType.lt_of_scanAt found
        scanParametersOnto text (type :: done) next
termination_by text.utf8ByteSize - offset

/-- Read what is returned, which is all of the text from a byte offset on. -/
def scanReturnAt (text : String) (offset : Nat) : Option (Except ClassFileError ReturnType) :=
  (Text.from? text offset).bind fun rest =>
    if rest = "V" then some (.ok .void)
    else
      (FieldType.scan rest).map fun scanned =>
        (scanned.mapError fun _ => .invalidDescriptor text).map .value

/-- The descriptor that the text spells from end to end. -/
def scan (text : String) : Option (Except ClassFileError MethodDescriptor) :=
  if Text.codeAt? text 0 = some '(' then
    (scanParametersOnto text [] 1).bind fun scanned =>
      match scanned with
      | .error fault => some (.error fault)
      | .ok (parameters, close) =>
        (scanReturnAt text (close + 1)).map fun returned =>
          returned.map fun returns => ⟨parameters, returns⟩
  else some (.error (.invalidDescriptor text))

/-- What a scan of parameters comes to, given what is read: behind the closing parenthesis
are as many bytes as there are in the rest. -/
def scannedParameters (text : String) :
    Option (List FieldType × List Char) → Except ClassFileError (List FieldType × Nat)
  | none => .error (.invalidDescriptor text)
  | some (parameters, rest) =>
    .ok (parameters, text.utf8ByteSize - (1 + (String.ofList rest).utf8ByteSize))

theorem scanParametersOnto_eq (text : String) (done : List FieldType) (offset : Nat) :
    scanParametersOnto text done offset =
      match Text.codeAt? text offset with
      | none => some (.error (.invalidDescriptor text))
      | some code =>
        if code = ')' then some (.ok (done.reverse, offset))
        else
          match FieldType.scanAt text offset with
          | none => none
          | some (.error fault) => some (.error fault)
          | some (.ok (type, next)) => scanParametersOnto text (type :: done) next := by
  rw [scanParametersOnto]
  split
  · rename_i absent
    simp only [absent]
  · rename_i code present
    simp only [present]
    by_cases closed : code = ')'
    · simp only [if_pos closed]
    · simp only [if_neg closed]
      split
      all_goals
        rename_i scanned
        simp only [scanned]

/-- A character that is no parenthesis is the first one of the next parameter. -/
theorem scanParametersOnto_cons (done : List FieldType) (front : String) {character : Char}
    (notClosed : character ≠ ')') (rest : List Char) :
    scanParametersOnto (front ++ String.ofList (character :: rest)) done front.utf8ByteSize =
      match FieldType.read (character :: rest) with
      | none => some (.error (.invalidDescriptor (front ++ String.ofList (character :: rest))))
      | some (type, _) =>
        scanParametersOnto (front ++ String.ofList (character :: rest)) (type :: done)
          (front ++ type.text).utf8ByteSize := by
  obtain ⟨code, present, -⟩ := Text.codeAt?_cons character rest
  have noClose : code ≠ ')' := by
    rintro rfl
    exact notClosed ((Text.codeAt?_cons_eq_some_iff (by decide) character rest).mp present)
  rw [scanParametersOnto_eq, Text.codeAt?_append, present]
  dsimp only
  rw [if_neg noClose, FieldType.scanAt_append]
  cases FieldType.read (character :: rest) with
  | none => rfl
  | some found =>
      dsimp only [FieldType.scanned]
      rw [String.utf8ByteSize_append]

theorem scanParametersOnto_append (done : List FieldType) (front : String) (rest : List Char) :
    scanParametersOnto (front ++ String.ofList rest) done front.utf8ByteSize =
      some (scannedParameters (front ++ String.ofList rest) (readParametersOnto done rest)) := by
  fun_induction readParametersOnto done rest generalizing front with
  | case1 done =>
      rw [scanParametersOnto_eq, Text.codeAt?_append, Text.codeAt?_nil]
      rfl
  | case2 done rest =>
      have closed : Text.codeAt? (String.ofList (')' :: rest)) 0 = some ')' :=
        (Text.codeAt?_cons_eq_some_iff (by decide) ')' rest).mpr rfl
      have size : front.utf8ByteSize = (front ++ String.ofList (')' :: rest)).utf8ByteSize -
          (1 + (String.ofList rest).utf8ByteSize) := by
        rw [String.utf8ByteSize_append, Text.utf8ByteSize_ofList_cons]
        exact (Nat.add_sub_cancel _ _).symm
      rw [scanParametersOnto_eq, Text.codeAt?_append, closed]
      dsimp only
      rw [if_pos rfl, scannedParameters, ← size]
  | case3 done rest notEmpty notClosed refused =>
      obtain ⟨character, rest, rfl⟩ := List.exists_cons_of_ne_nil notEmpty
      have opens : character ≠ ')' := fun same => notClosed rest (by rw [same])
      rw [scanParametersOnto_cons done front opens, refused]
      rfl
  | case4 done text notEmpty notClosed type tail found shorter ih =>
      obtain ⟨character, rest, rfl⟩ := List.exists_cons_of_ne_nil notEmpty
      have opens : character ≠ ')' := fun same => notClosed rest (by rw [same])
      obtain ⟨-, spelled⟩ := FieldType.read_eq_some_iff.mp found
      have text_eq : front ++ String.ofList (character :: rest) =
          (front ++ type.text) ++ String.ofList tail := by
        rw [spelled, String.ofList_append, String.append_assoc, FieldType.text]
      rw [scanParametersOnto_cons done front opens, found]
      dsimp only
      rw [text_eq]
      exact ih (front ++ type.text)

theorem scanReturnAt_append (front : String) (rest : List Char) :
    scanReturnAt (front ++ String.ofList rest) front.utf8ByteSize =
      some (match readReturn rest with
        | none => .error (.invalidDescriptor (front ++ String.ofList rest))
        | some returns => .ok returns) := by
  have void : String.ofList rest = "V" ↔ rest = ['V'] := by
    rw [← String.toList_inj, String.toList_ofList]
    rfl
  unfold scanReturnAt readReturn
  rw [Text.from?_append, Option.bind_some]
  simp only [void]
  by_cases isVoid : rest = ['V']
  · rw [if_pos isVoid, if_pos isVoid]
  · rw [if_neg isVoid, if_neg isVoid, FieldType.scan_eq, Option.map_some, FieldType.ofText,
      String.toList_ofList]
    split <;> rfl

/-- The scan of a whole text comes to what reading its characters comes to. -/
theorem scan_eq (text : String) : scan text = some (ofText text) := by
  have text_eq : text = String.ofList text.toList := String.ofList_toList.symm
  generalize text.toList = characters at text_eq
  subst text_eq
  unfold scan ofText
  rw [String.toList_ofList]
  cases characters with
  | nil => rfl
  | cons character rest =>
      by_cases opened : character = '('
      · subst opened
        have split : String.ofList ('(' :: rest) = "(" ++ String.ofList rest := by
          rw [← String.toList_inj]
          simp
        have scanned := scanParametersOnto_append [] "(" rest
        rw [← split] at scanned
        rw [if_pos ((Text.codeAt?_cons_eq_some_iff (by decide) '(' rest).mpr rfl)]
        change (scanParametersOnto _ [] "(".utf8ByteSize).bind _ = _
        rw [scanned, Option.bind_some, read]
        cases parametersRead : readParametersOnto [] rest with
        | none => rfl
        | some found =>
            obtain ⟨parameters, tail⟩ := found
            obtain ⟨more, -, -, rfl⟩ := readParametersOnto_eq_some_iff.mp parametersRead
            have closed : String.ofList ('(' :: (more.flatMap FieldType.chars ++ ')' :: tail)) =
                String.ofList ('(' :: (more.flatMap FieldType.chars ++ [')'])) ++
                  String.ofList tail := by
              rw [← String.ofList_append]
              simp
            have stop : (String.ofList ('(' ::
                  (more.flatMap FieldType.chars ++ ')' :: tail))).utf8ByteSize -
                (1 + (String.ofList tail).utf8ByteSize) + 1 =
                  (String.ofList
                    ('(' :: (more.flatMap FieldType.chars ++ [')']))).utf8ByteSize := by
              rw [closed, String.utf8ByteSize_append, Text.utf8ByteSize_ofList_cons]
              have positive := Char.utf8Size_pos '('
              omega
            dsimp only [scannedParameters]
            rw [stop, closed, scanReturnAt_append, Option.bind_some]
            dsimp only
            cases readReturn tail <;> rfl
      · rw [if_neg fun same => opened
          ((Text.codeAt?_cons_eq_some_iff (by decide) character rest).mp same)]
        unfold read
        split
        · rename_i found
          split at found
          · rename_i same
            cases same
            exact absurd rfl opened
          · cases found
        · rfl

end MethodDescriptor

/-- Reading and writing undo each other, for exactly the well formed values. -/
structure SpelledExactly {α : Type} (ofText : String → Except ClassFileError α)
    (scan : String → Option (Except ClassFileError α)) (text : α → String)
    (wellFormed : α → Prop) : Prop where
  /-- A text is read as a value exactly if it is the written form of that value and the
  value is well formed. -/
  reads : ∀ spelled value, ofText spelled = .ok value ↔ text value = spelled ∧ wellFormed value
  /-- The accepted texts are the written forms of well formed values. -/
  accepts : ∀ spelled,
    (∃ value, ofText spelled = .ok value) ↔ ∃ value, wellFormed value ∧ text value = spelled
  /-- No text is the written form of two well formed values. -/
  unique : ∀ first second, wellFormed first → wellFormed second → text first = text second →
    first = second
  /-- All other texts are refused, and the report carries the whole text. -/
  refuses : ∀ spelled fault, ofText spelled = .error fault ↔
    fault = .invalidDescriptor spelled ∧ ¬∃ value, wellFormed value ∧ text value = spelled
  /-- Going through the text by byte offsets never cuts a character, and comes to the same. -/
  scans : ∀ spelled, scan spelled = some (ofText spelled)

theorem spelledExactly_of_reads {α : Type} {ofText : String → Except ClassFileError α}
    {scan : String → Option (Except ClassFileError α)} {text : α → String} {wellFormed : α → Prop}
    (reads : ∀ spelled value,
      ofText spelled = .ok value ↔ text value = spelled ∧ wellFormed value)
    (reports : ∀ spelled fault, ofText spelled = .error fault → fault = .invalidDescriptor spelled)
    (scans : ∀ spelled, scan spelled = some (ofText spelled)) :
    SpelledExactly ofText scan text wellFormed where
  reads := reads
  accepts spelled := by simp only [reads, and_comm]
  unique first second firstFormed secondFormed same := by
    have readFirst := (reads (text second) first).mpr ⟨same, firstFormed⟩
    have readSecond := (reads (text second) second).mpr ⟨rfl, secondFormed⟩
    exact Except.ok.inj (readFirst.symm.trans readSecond)
  refuses spelled fault := by
    constructor
    · intro refused
      refine ⟨reports spelled fault refused, ?_⟩
      rintro ⟨value, formed, written⟩
      cases refused.symm.trans ((reads spelled value).mpr ⟨written, formed⟩)
    · rintro ⟨rfl, noValue⟩
      cases result : ofText spelled with
      | error fault => rw [reports spelled fault result]
      | ok value =>
          obtain ⟨written, formed⟩ := (reads spelled value).mp result
          exact absurd ⟨value, formed, written⟩ noValue
  scans := scans

/-- The descriptors of fields and of methods are read exactly as they are written. -/
theorem descriptors_spelledExactly :
    SpelledExactly FieldType.ofText FieldType.scan FieldType.text FieldType.WellFormed ∧
      SpelledExactly MethodDescriptor.ofText MethodDescriptor.scan MethodDescriptor.text
        MethodDescriptor.WellFormed :=
  ⟨spelledExactly_of_reads (fun _ _ => FieldType.ofText_eq_ok_iff)
      (fun _ _ => FieldType.ofText_eq_error) FieldType.scan_eq,
    spelledExactly_of_reads (fun _ _ => MethodDescriptor.ofText_eq_ok_iff)
      (fun _ _ => MethodDescriptor.ofText_eq_error) MethodDescriptor.scan_eq⟩

example : FieldType.scan "[Lé;" = some (.ok (.array (.object "é"))) := by decide

end Lookout

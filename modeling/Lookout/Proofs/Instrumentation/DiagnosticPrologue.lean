/-
# What a prologue reports

The code that is assembled for a kind of target, rehearsed in front of any other
code, prints exactly the report of that kind: the line is put together from the
same pieces as the report, and the stack trace follows it. The padding behind the
report does nothing.
-/

import Lookout.Instrumentation.DiagnosticPrologue
import Lookout.Proofs.Fragment.Assembly
import Lookout.Proofs.Rehearsal

namespace Lookout

namespace DiagnosticPrologue

open Assembly Rehearsal

/-! ### Pieces that can be written -/

/-- The members that reports refer to, whatever class they are in. -/
def members : List MemberReference :=
  [errorStream, println, concat, join, currentThread, getName, dumpStack]

/-- The texts of reports, and the name and type of the field that holds the command. -/
def texts : List String :=
  [Diagnostic.eventDescription .halt ++ Diagnostic.threadNameLabel,
    Diagnostic.eventDescription .processStart, Diagnostic.argumentSeparator,
    Diagnostic.threadNameLabel, commandFieldName, commandFieldDescriptor]

theorem pieces_fit : (∀ member ∈ members, member.Fits) ∧ ∀ text ∈ texts, Text.Fits text := by
  decide +kernel

theorem fits_of_mem_members {member : MemberReference} (referred : member ∈ members) :
    member.Fits :=
  pieces_fit.1 member referred

theorem fits_of_mem_texts {text : String} (used : text ∈ texts) : Text.Fits text :=
  pieces_fit.2 text used

/-! ### Operations -/

/-- The operation, when it succeeds, emits code that performs the change of scene. -/
def Does (action : Assembly Unit) (before after : Surroundings → Scene) : Prop :=
  Emits action fun pool code => ∀ surroundings,
    Performs pool surroundings code (before surroundings) (after surroundings)

/-- The operation, when it succeeds, emits code that ends the rehearsal after this
output and one line, with the stack printed. -/
def Ends (action : Assembly Unit) (before : Surroundings → Scene) (output : Surroundings → String) :
    Prop :=
  Emits action fun pool code => ∀ surroundings,
    Concludes pool surroundings code (before surroundings) (output surroundings) 1

variable {first second : Assembly Unit} {before between after : Surroundings → Scene}

theorem Does.bind (does : Does first before between) (doesNext : Does second between after) :
    Does (first >>= fun _ => second) before after :=
  Emits.bind does doesNext fun _ _ _ performs performsNext surroundings =>
    (performs surroundings).append (performsNext surroundings)

theorem Does.ends {output : Surroundings → String} (does : Does first before between)
    (endsNext : Ends second between output) : Ends (first >>= fun _ => second) before output :=
  Emits.bind does endsNext fun _ _ _ performs concludes surroundings =>
    (performs surroundings).concludes (concludes surroundings)

/-- Whether an operation calls the method, whichever kind it is of. -/
def Calls (action : Assembly Unit) (method : MemberReference) : Prop :=
  ∃ opcode, (opcode = Opcode.invokestatic ∨ opcode = Opcode.invokevirtual) ∧
    Emits action (RefersTo opcode method)

theorem does_call {action : Assembly Unit} {method : MemberReference} (calls : Calls action method)
    (leads : ∀ surroundings resumeOffset, call surroundings resumeOffset method.owner method.name
      (before surroundings) = some (.goesOn (after surroundings))) : Does action before after := by
  obtain ⟨opcode, isCall, emits⟩ := calls
  refine emits.weaken fun pool code ⟨index, found, same⟩ surroundings => ?_
  rw [same]
  exact performs_call isCall found (leads surroundings)

theorem ends_call {action : Assembly Unit} {method : MemberReference} (calls : Calls action method)
    {output : Surroundings → String}
    (leads : ∀ surroundings resumeOffset, call surroundings resumeOffset method.owner method.name
      (before surroundings) = some (.ends ⟨output surroundings, 1, 1, resumeOffset⟩)) :
    Ends action before output := by
  obtain ⟨opcode, isCall, emits⟩ := calls
  refine emits.weaken fun pool code ⟨index, found, same⟩ surroundings => ?_
  rw [same]
  exact concludes_call isCall found (leads surroundings)

/-- The scene with these operands before anything was printed. -/
def holding (operands : Surroundings → List Value) (surroundings : Surroundings) : Scene :=
  ⟨operands surroundings, "", 0⟩

variable (operands : Surroundings → List Value)

theorem does_ldc {text : String} (fits : Text.Fits text) : Does (ldc text) (holding operands)
    (holding fun surroundings => .text text :: operands surroundings) := by
  refine (emits_ldc fits).weaken fun pool code ⟨index, found, same⟩ surroundings => ?_
  rw [same]
  exact performs_ldc found _

theorem does_aload0 : Does (aload 0) (holding operands)
    (holding fun surroundings => .receiver :: operands surroundings) := by
  apply (emits_aload 0).weaken
  intro pool code same surroundings
  rw [same]
  exact performs_aload0 _

theorem does_getstatic : Does (getstatic errorStream) (holding operands)
    (holding fun surroundings => .printStream :: operands surroundings) := by
  refine (emits_getstatic (fits_of_mem_members (by simp [members]))).weaken
    fun pool code ⟨index, found, same⟩ surroundings => ?_
  rw [same]
  exact performs_getstatic found rfl rfl _

/-- The receiver is replaced by the command of the process. -/
theorem does_getfield {owner : String} (fits : Text.Fits owner) :
    Does (getfield (commandField owner))
      (holding fun surroundings => .receiver :: operands surroundings)
      (holding fun surroundings => .list surroundings.command :: operands surroundings) := by
  have fits : (commandField owner).Fits :=
    ⟨fits, fits_of_mem_texts (by simp [texts, commandField]),
      fits_of_mem_texts (by simp [texts, commandField])⟩
  refine (emits_getfield fits).weaken fun pool code ⟨index, found, same⟩ surroundings => ?_
  rw [same]
  exact performs_getfield found rfl rfl

theorem does_threadName : Does threadName (holding operands)
    (holding fun surroundings => .text surroundings.threadName :: operands surroundings) := by
  have threadFits : currentThread.Fits := fits_of_mem_members (by simp [members])
  have nameFits : getName.Fits := fits_of_mem_members (by simp [members])
  have pushThread : Does (invokestatic currentThread) (holding operands)
      (holding fun surroundings => .thread :: operands surroundings) :=
    does_call ⟨_, .inl rfl, emits_invokestatic threadFits⟩ fun _ _ => rfl
  exact pushThread.bind
    (does_call ⟨_, .inr rfl, emits_invokevirtual nameFits⟩ fun _ _ => rfl)

theorem does_concat (head tail : Surroundings → String) :
    Does (invokevirtual concat)
      (holding fun surroundings =>
        .text (tail surroundings) :: .text (head surroundings) :: operands surroundings)
      (holding fun surroundings =>
        .text (head surroundings ++ tail surroundings) :: operands surroundings) :=
  have fits : concat.Fits := fits_of_mem_members (by simp [members])
  does_call ⟨_, .inr rfl, emits_invokevirtual fits⟩ fun _ _ => rfl

theorem does_join (items : Surroundings → List String) (separator : String) :
    Does (invokestatic join)
      (holding fun surroundings =>
        .list (items surroundings) :: .text separator :: operands surroundings)
      (holding fun surroundings =>
        .text (separator.intercalate (items surroundings)) :: operands surroundings) :=
  have fits : join.Fits := fits_of_mem_members (by simp [members])
  does_call ⟨_, .inl rfl, emits_invokestatic fits⟩ fun _ _ => rfl

/-- Printing the line that is on the stack, and the call stack behind it. -/
theorem ends_printAndDump (line : Surroundings → String) :
    Ends printAndDump (holding fun surroundings => [.text (line surroundings), .printStream])
      fun surroundings =>
        Diagnostic.asLine (line surroundings) ++ Diagnostic.stackTrace surroundings.stack := by
  have printlnFits : println.Fits := fits_of_mem_members (by simp [members])
  have dumpStackFits : dumpStack.Fits := fits_of_mem_members (by simp [members])
  have printLine : Does (invokevirtual println)
      (holding fun surroundings => [.text (line surroundings), .printStream])
      fun surroundings => ⟨[], Diagnostic.asLine (line surroundings), 1⟩ := by
    refine does_call ⟨_, .inr rfl, emits_invokevirtual printlnFits⟩ fun _ _ => ?_
    show some (Turn.goesOn ⟨[], "" ++ Diagnostic.asLine _, 1⟩) = _
    rw [String.empty_append]
  exact printLine.ends
    (ends_call ⟨_, .inl rfl, emits_invokestatic dumpStackFits⟩ fun _ _ => rfl)

/-! ### The reports -/

/-- The command that the report of this kind shows. -/
def shownCommand (surroundings : Surroundings) : TargetKind → Option (List String)
  | .halt => none
  | .processStart => some surroundings.command

/-- The report of this kind. -/
def report (kind : TargetKind) (surroundings : Surroundings) : String :=
  Diagnostic.render kind surroundings.threadName (shownCommand surroundings kind)
    surroundings.stack

theorem ends_haltCode : Ends haltCode (holding fun _ => []) (report .halt) := by
  have spelledOut : report .halt = fun surroundings =>
      Diagnostic.asLine (Diagnostic.eventDescription .halt ++ Diagnostic.threadNameLabel ++
        surroundings.threadName) ++ Diagnostic.stackTrace surroundings.stack := by
    funext surroundings
    simp [report, Diagnostic.render, Diagnostic.eventLine, Diagnostic.commandText]
  rw [spelledOut]
  apply (does_getstatic _).ends
  apply (does_ldc _ (fits_of_mem_texts (by simp [texts]))).ends
  apply (does_threadName _).ends
  apply (does_concat _ _ _).ends
  exact ends_printAndDump _

theorem ends_processStartCode {owner : String} (fits : Text.Fits owner) :
    Ends (processStartCode owner) (holding fun _ => []) (report .processStart) := by
  apply (does_getstatic _).ends
  apply (does_ldc _ (fits_of_mem_texts (by simp [texts]))).ends
  apply (does_ldc _ (fits_of_mem_texts (by simp [texts]))).ends
  apply (does_aload0 _).ends
  apply (does_getfield _ fits).ends
  apply (does_join _ _ _).ends
  apply (does_concat _ _ _).ends
  apply (does_ldc _ (fits_of_mem_texts (by simp [texts]))).ends
  apply (does_concat _ _ _).ends
  apply (does_threadName _).ends
  apply (does_concat _ _ _).ends
  exact ends_printAndDump _

/-- The code of either kind ends in its report. -/
theorem ends_code (kind : TargetKind) {owner : String} (fits : Text.Fits owner) :
    Ends (code kind owner) (holding fun _ => []) (report kind) := by
  cases kind with
  | halt => exact ends_haltCode
  | processStart => exact ends_processStartCode fits

/-! ### The fragments -/

/-- Rehearsed in front of any code, the fragment prints the report of its kind, and
nothing but padding stands behind the call that ends it. -/
def Reports (kind : TargetKind) (pool : ConstantPool) (fragment : Fragment) : Prop :=
  ∃ resumeOffset ≤ fragment.length,
    fragment.code.drop resumeOffset =
        List.replicate (fragment.length - resumeOffset) Opcode.nop ∧
      ∀ surroundings rest, ofCode pool surroundings (fragment.code ++ rest) =
        some ⟨report kind surroundings, 1, 1, resumeOffset⟩

theorem assemble_eq_ok_iff {kind : TargetKind} {owner : String} {pool last : ConstantPool}
    {fragment : Fragment} :
    assemble kind owner pool = (.ok fragment, last) ↔
      ∃ assembler, code kind owner (Assembler.start pool) = (.ok (), assembler) ∧
        assembler.finish = .ok fragment ∧ last = assembler.pool := by
  unfold assemble
  obtain ⟨result, assembler⟩ := code kind owner (Assembler.start pool)
  cases result with
  | error fault =>
      constructor
      · intro impossible
        cases impossible
      · rintro ⟨_, impossible, -⟩
        cases impossible
  | ok _ =>
      constructor
      · intro success
        obtain ⟨finished, same⟩ := Prod.mk.inj success
        exact ⟨assembler, rfl, finished, same.symm⟩
      · rintro ⟨_, same, finished, rfl⟩
        cases same
        exact Prod.ext finished rfl

theorem build_eq_ok_iff {kind : TargetKind} {method : String} {file next : ClassFile}
    {fragment : Fragment} :
    build kind method file = (.ok fragment, next) ↔
      ∃ owner pool, file.name = .ok owner ∧ lacksCommandField kind file = false ∧
        assemble kind owner file.pool = (.ok fragment, pool) ∧ next = { file with pool } := by
  unfold build
  cases file.name with
  | error fault =>
      constructor
      · intro impossible
        cases impossible
      · rintro ⟨_, _, impossible, -⟩
        cases impossible
  | ok owner =>
      cases lacks : lacksCommandField kind file with
      | true =>
          constructor
          · intro impossible
            cases impossible
          · rintro ⟨_, _, -, impossible, -⟩
            cases impossible
      | false =>
          dsimp only
          rw [if_neg Bool.false_ne_true]
          constructor
          · intro built
            cases assembled : assemble kind owner file.pool with
            | mk result pool =>
                rw [assembled] at built
                cases result with
                | error fault => cases built
                | ok finished =>
                    cases built
                    exact ⟨owner, pool, rfl, rfl, assembled, rfl⟩
          · rintro ⟨_, pool, named, -, assembled, rfl⟩
            cases named
            rw [assembled]
            rfl

/-- A prologue that is built changes nothing but the pool, and reports with any pool
that grows from that one. -/
theorem reports_of_build {kind : TargetKind} {method : String} {file next : ClassFile}
    {fragment : Fragment} (sound : file.pool.Sound)
    (built : build kind method file = (.ok fragment, next)) :
    ∃ pool, next = { file with pool } ∧ file.pool.GrowsTo pool ∧ pool.Sound ∧
      ∀ later, pool.GrowsTo later → Reports kind later fragment := by
  obtain ⟨owner, _, named, -, assembled, rfl⟩ := build_eq_ok_iff.mp built
  obtain ⟨assembler, emits, finished, rfl⟩ := assemble_eq_ok_iff.mp assembled
  have fits := ConstantPool.fits_of_className sound.textsFit named
  obtain ⟨grows, grownSound, emitted, sameCode, concludes⟩ :=
    ends_code kind fits (Assembler.start file.pool) assembler sound emits
  refine ⟨assembler.pool, rfl, grows, grownSound, fun later beyond => ?_⟩
  have whole := congrArg Fragment.code (Assembler.finish_eq_ok_iff.mp finished).2
  dsimp only at whole
  rw [sameCode] at whole
  change fragment.code = emitted ++ List.replicate assembler.padding Opcode.nop at whole
  have count : fragment.length = emitted.length + assembler.padding := by
    rw [Fragment.length, whole, List.length_append, List.length_replicate]
  refine ⟨emitted.length, by omega, ?_, fun surroundings rest => ?_⟩
  · rw [count, whole, List.drop_left, Nat.add_sub_cancel_left]
  · rw [whole, List.append_assoc, ofCode_eq_ofCodeFrom]
    have ends := concludes later beyond surroundings 0
      (List.replicate assembler.padding Opcode.nop ++ rest)
    rwa [Nat.zero_add] at ends

end DiagnosticPrologue

end Lookout

/-
# When a pool survives being written

A pool that comes about by requests has the form that a pool has in a class file, so
whether it is read back depends on its texts alone. Texts of any length can be interned,
but the length that is written in front of a text has 16 bits, and no request refuses a
text for it. Requests whose texts fit never spoil a pool; one request with a longer text
that is answered spoils it for good.
-/

import Lookout.Proofs.ConstantPool.Reachable

namespace Lookout.ConstantPool

/-- Reading what is written for the pool gives the pool again, and leaves nothing. -/
def ReadsBack (pool : ConstantPool) : Prop :=
  read (Cursor.start pool.bytes) = .ok (pool, ⟨pool.bytes.length, []⟩)

/-- A pool of the right form is read back exactly if its texts can be written. -/
theorem readsBack_iff {pool : ConstantPool} (wellFormed : pool.WellFormed) :
    pool.ReadsBack ↔ pool.TextsFit := by
  constructor
  · intro readBack
    obtain ⟨_, ⟨-, fit, -⟩, -, -⟩ := accepts_read.consumed readBack
    exact fit
  · intro fit
    have spelled : SpelledBy pool.bytes pool := ⟨wellFormed, fit, .inl rfl⟩
    have readBack := accepts_read.reads spelled 0 []
    rwa [List.append_nil, Nat.zero_add] at readBack

/-! ### Runs of requests -/

/-- The pool after requests in this order, whether they were answered or not. -/
def serveAll (pool : ConstantPool) (requests : List InternRequest) : ConstantPool :=
  requests.foldl (fun pool request => (request.serve pool).2) pool

theorem serveAll_cons (pool : ConstantPool) (request : InternRequest)
    (requests : List InternRequest) :
    pool.serveAll (request :: requests) = (request.serve pool).2.serveAll requests := rfl

theorem serveAll_append (pool : ConstantPool) (earlier later : List InternRequest) :
    pool.serveAll (earlier ++ later) = (pool.serveAll earlier).serveAll later :=
  List.foldl_append

theorem grown_serveAll {pool : ConstantPool} (wellFormed : pool.WellFormed)
    (requests : List InternRequest) :
    pool.GrowsTo (pool.serveAll requests) ∧ (pool.serveAll requests).WellFormed := by
  induction requests generalizing pool with
  | nil => exact ⟨.refl pool, wellFormed⟩
  | cons request requests ih =>
      obtain ⟨grows, between⟩ := request.grown_serve wellFormed
      obtain ⟨growsLater, last⟩ := ih between
      exact ⟨grows.trans growsLater, last⟩

/-- Requests whose texts can be written leave a pool whose texts can be written. -/
theorem textsFit_serveAll {pool : ConstantPool} (fit : pool.TextsFit)
    {requests : List InternRequest} (allFit : ∀ request ∈ requests, request.Fits) :
    (pool.serveAll requests).TextsFit := by
  induction requests generalizing pool with
  | nil => exact fit
  | cons request requests ih =>
      rw [List.forall_mem_cons] at allFit
      exact ih (InternRequest.textsFit_serve fit allFit.1) allFit.2

/-- A text that does not fit stays in the pool. -/
theorem TextsFit.of_growsTo {earlier later : ConstantPool} (grows : earlier.GrowsTo later)
    (fit : later.TextsFit) : earlier.TextsFit := by
  obtain ⟨added, slots, -⟩ := grows
  intro constant member
  exact fit constant (by rw [slots]; exact List.mem_append_left added member)

/-- A pool that is made from nothing, or read, before anything is asked of it. -/
inductive Initial : ConstantPool → Prop where
  | empty : Initial .empty
  | read {pool : ConstantPool} {cursor next : Cursor} :
      ConstantPool.read cursor = .ok (pool, next) → Initial pool

theorem Initial.wellFormed {pool : ConstantPool} (initial : pool.Initial) : pool.WellFormed := by
  cases initial with
  | empty => exact wellFormed_empty
  | read success => exact wellFormed_of_read success

theorem Initial.textsFit {pool : ConstantPool} (initial : pool.Initial) : pool.TextsFit := by
  cases initial with
  | empty =>
      intro constant member
      simp [ConstantPool.empty] at member
  | read success =>
      obtain ⟨_, ⟨-, fit, -⟩, -, -⟩ := accepts_read.consumed success
      exact fit

/-- Requests of which all texts can be written, answered or not, leave a pool that
survives being written. Of a pool that survives, every request that was answered on the
way had such texts. -/
theorem readsBack_serveAll {start : ConstantPool} (initial : start.Initial)
    (requests : List InternRequest) :
    ((∀ request ∈ requests, request.Fits) → (start.serveAll requests).ReadsBack) ∧
      ∀ earlier request later index, requests = earlier ++ request :: later →
        (request.serve (start.serveAll earlier)).1 = .ok index →
          (start.serveAll requests).ReadsBack → request.Fits := by
  constructor
  · intro allFit
    exact (readsBack_iff (grown_serveAll initial.wellFormed requests).2).mpr
      (textsFit_serveAll initial.textsFit allFit)
  · rintro earlier request later index rfl answered readBack
    have before := (grown_serveAll initial.wellFormed earlier).2
    have after := (request.grown_serve before).2
    obtain ⟨grows, last⟩ := grown_serveAll after later
    rw [serveAll_append, serveAll_cons] at readBack
    have fit := ((readsBack_iff last).mp readBack).of_growsTo grows
    exact InternRequest.fits_of_serve before (Prod.ext answered rfl) fit

/-- A string and a reference whose name it is, on the empty pool. The reference comes
first, and the string takes up its name. -/
theorem readsBack_serveAll_size :
    (empty.serveAll [.interfaceMethodRef ⟨"java/util/List", "size", "()I"⟩, .string "size"]).count =
        8 ∧
      (empty.serveAll
        [.interfaceMethodRef ⟨"java/util/List", "size", "()I"⟩, .string "size"]).ReadsBack :=
  ⟨by decide +kernel, (readsBack_serveAll .empty _).1 (by decide)⟩

/-! ### A text that is too long -/

/-- The pool whose only constant is the text. -/
def only (text : String) : ConstantPool := ⟨#[none, some (.utf8 (Text.ModifiedUtf8.encode text))]⟩

theorem serve_utf8_empty (text : String) :
    InternRequest.serve (.utf8 text) empty = (.ok 1, only text) := by
  have absent : empty.indexOf? (.utf8 (Text.ModifiedUtf8.encode text)) = none := by
    rw [indexOf?_eq_none_iff]
    simp [empty]
  show empty.intern _ = _
  rw [intern, absent]
  rfl

theorem spelledBy_only {text : String} (fits : Text.Fits text) :
    SpelledBy (only text).bytes (only text) := by
  have laidOut : (only text).slots.toList =
      none :: slotsOfAll [.utf8 (Text.ModifiedUtf8.encode text)] := rfl
  have textsFit : (only text).TextsFit := by
    rw [textsFit_iff laidOut, List.forall_mem_singleton]
    exact fits
  have twoSlots : 2 ≤ maxSlots := by decide
  exact ⟨⟨⟨_, laidOut⟩, twoSlots⟩, textsFit, .inl rfl⟩

/-- The text of that many letters a. -/
def letters (count : Nat) : String := String.ofList (List.replicate count 'a')

theorem encode_letters (count : Nat) :
    Text.ModifiedUtf8.encode (letters count) = List.replicate count 97 := by
  have oneUnit : Text.unitsOfChar 'a' = [97] := by decide
  have oneByte : Text.ModifiedUtf8.encodeUnit 97 = [97] := by decide
  rw [Text.ModifiedUtf8.encode, Text.units, letters, String.toList_ofList, List.flatMap_replicate,
    oneUnit, List.flatten_replicate_singleton, List.flatMap_replicate, oneByte,
    List.flatten_replicate_singleton]

/-- The empty pool answers a request for 65536 letters. What is then written has 0 as the
length of the text, so an empty text is read, and all the letters are left over. -/
theorem not_readsBack_letters :
    InternRequest.serve (.utf8 (letters 65536)) empty = (.ok 1, only (letters 65536)) ∧
      read (Cursor.start (only (letters 65536)).bytes) =
        .ok (only "", ⟨5, List.replicate 65536 97⟩) ∧
      ¬ (only (letters 65536)).ReadsBack := by
  have written : (only (letters 65536)).bytes = (only "").bytes ++ List.replicate 65536 97 := by
    have laidOut (text : String) : (only text).bytes = Word.count16 2 ++
        (1 :: (Word.count16 (Text.ModifiedUtf8.encode text).length ++
          Text.ModifiedUtf8.encode text)) := by
      simp [bytes, only, slotBytes, Constant.bytes, Constant.tag, Constant.payload, count]
    rw [laidOut, laidOut, encode_letters, List.length_replicate]
    rfl
  have readShort : read (Cursor.start (only (letters 65536)).bytes) =
      .ok (only "", ⟨5, List.replicate 65536 97⟩) := by
    rw [written]
    exact accepts_read.reads (spelledBy_only (by decide)) 0 (List.replicate 65536 97)
  refine ⟨serve_utf8_empty _, readShort, fun readBack => ?_⟩
  rw [ReadsBack, readShort] at readBack
  have nothingLeft : List.replicate 65536 (97 : UInt8) = [] :=
    congrArg (fun result => result.2.rest) (Except.ok.inj readBack)
  rw [List.replicate_eq_nil_iff] at nothingLeft
  cases nothingLeft

end Lookout.ConstantPool

/-
# Classes and their data

Data and the class in it determine one another, up to one spelling: an empty pool may
be counted as having no slots at all, though slot 0 is always counted when a pool is
written. So data that is read and written again is the same data, save for that count,
and a class that is written and read again is the same class, if what is counted in it
fits the width of its count.
-/

import Lookout.Proofs.ClassFile.Format
import Lookout.Proofs.ConstantPool.Reachable
import Lookout.Sample

namespace Lookout

namespace ClassFile

/-! ### From data to data -/

/-- The magic number and the version, which stand in front of the pool. -/
def heading (file : ClassFile) : Bytes :=
  Word.bytes32 magic ++ (Word.bytes16 file.minorVersion ++ Word.bytes16 file.majorVersion)

/-- What stands behind the pool. -/
def trailing (file : ClassFile) : Bytes :=
  Word.bytes16 file.access ++ (Word.bytes16 file.thisClass ++ (Word.bytes16 file.superClass ++
    ((Word.count16 file.interfaces.length ++ file.interfaces.flatMap Word.bytes16) ++
      (Member.listBytes file.fields ++ (Member.listBytes file.methods ++
        Attribute.listBytes file.attributes)))))

theorem bytesAround_eq (poolBytes : Bytes) (file : ClassFile) :
    file.bytesAround poolBytes = file.heading ++ (poolBytes ++ file.trailing) := by
  simp only [bytesAround, heading, trailing, List.append_assoc]

/-- Where the slots of the pool are counted. -/
def poolCountOffset : Nat := 8

theorem length_heading (file : ClassFile) : file.heading.length = poolCountOffset := rfl

/-- The data with slot 0 counted, if no slot was. -/
def countingSlots (data : Bytes) : Bytes :=
  if (data.drop poolCountOffset).take 2 = Word.count16 0 then
    data.take poolCountOffset ++ (Word.count16 1 ++ data.drop (poolCountOffset + 2))
  else data

/-- The slots of a pool are counted behind the heading. -/
theorem countingSlots_eq (file : ClassFile) (count rest : Bytes) (width : count.length = 2) :
    countingSlots (file.heading ++ (count ++ rest)) =
      file.heading ++ ((if count = Word.count16 0 then Word.count16 1 else count) ++ rest) := by
  have atCount : (file.heading ++ (count ++ rest)).drop poolCountOffset = count ++ rest :=
    List.drop_left' file.length_heading
  have behindCount :
      (file.heading ++ (count ++ rest)).drop (poolCountOffset + 2) = rest := by
    rw [← List.drop_drop, atCount]
    exact List.drop_left' width
  have counted : (count ++ rest).take 2 = count := List.take_left' width
  rw [countingSlots, atCount, counted, behindCount, List.take_left' file.length_heading]
  split <;> rfl

/-- A pool that has the form of one is never counted as having no slots. -/
theorem count16_ne_zero {pool : ConstantPool} (wellFormed : pool.WellFormed) :
    Word.count16 pool.count ≠ Word.count16 0 := by
  obtain ⟨⟨constants, laidOut⟩, small⟩ := wellFormed
  have counted := pool.count_eq_length
  rw [laidOut, List.length_cons] at counted
  rw [ConstantPool.maxSlots] at small
  intro same
  have noSlots := congrArg UInt16.toNat (Word.bytes16_injective same)
  rw [Word.toNat_ofNat16 (by omega), Word.toNat_ofNat16 (by omega)] at noSlots
  omega

/-- A class is written in as many bytes as it was read from, and in the same ones, except
that slot 0 of the pool is counted even where the data counted no slot. -/
theorem bytes_of_ofBytes {data : Bytes} {file : ClassFile} (read : ofBytes data = .ok file) :
    file.bytes.length = data.length ∧ file.bytes = countingSlots data := by
  refine ⟨length_bytes_of_ofBytes read, ?_⟩
  obtain ⟨fits, poolBytes, ⟨-, -, same⟩, rfl⟩ := ofBytes_eq_ok_iff.mp read
  rw [bytes_eq_bytesAround, bytesAround_eq, bytesAround_eq]
  rcases same with rfl | ⟨empty, rfl⟩
  · rw [ConstantPool.bytes, List.append_assoc, countingSlots_eq file _ _ (Word.length_count16 _),
      if_neg (count16_ne_zero fits.pool)]
  · rw [countingSlots_eq file _ _ (Word.length_count16 _), if_pos rfl, empty]
    rfl

/-- A class without constants whose pool is counted as having no slots. It has a method,
whose indices lead nowhere, with an attribute of two bytes. -/
def uncounted : Bytes :=
  Word.bytes32 magic ++ [0, 0, 0, 52, 0, 0, 0, 33, 0, 0, 0, 0, 0, 0, 0, 0, 0, 1, 0, 8, 0, 1, 0, 2,
    0, 1, 0, 3, 0, 0, 0, 2, 18, 7, 0, 0]

/-- That class is written in the bytes that it was read from, but for the count. -/
theorem bytes_of_ofBytes_uncounted :
    ∃ file, ofBytes uncounted = .ok file ∧ file.bytes.length = uncounted.length ∧
      file.bytes = countingSlots uncounted ∧ countingSlots uncounted = uncounted.set 9 1 := by
  obtain ⟨file, read, -⟩ : ∃ file, ofBytes uncounted = .ok file ∧ file.methods.length = 1 := by
    decide +kernel
  obtain ⟨sameLength, sameBytes⟩ := bytes_of_ofBytes read
  exact ⟨file, read, sameLength, sameBytes, by decide⟩

/-! ### From classes to classes -/

/-- What is counted in the class, or has a length, fits the width of its count: texts and
all lists are counted in 16 bits, and the bytes of attributes in 32. -/
structure CountsFit (file : ClassFile) : Prop where
  texts : file.pool.TextsFit
  interfaces : file.interfaces.length < 65536
  fields : Member.ListFits file.fields
  methods : Member.ListFits file.methods
  attributes : Attribute.ListFits file.attributes

theorem fits_iff {file : ClassFile} : file.Fits ↔ file.pool.WellFormed ∧ file.CountsFit := by
  constructor
  · intro fits
    exact ⟨fits.pool, fits.texts, fits.interfaces, fits.fields, fits.methods, fits.attributes⟩
  · rintro ⟨wellFormed, counts⟩
    exact ⟨wellFormed, counts.texts, counts.interfaces, counts.fields, counts.methods,
      counts.attributes⟩

/-- Whatever was interned in its pool, a class is read back as it was written exactly if
everything in it could be counted. -/
theorem ofBytes_bytes_iff {file : ClassFile} (reachable : file.pool.Reachable) :
    ofBytes file.bytes = .ok file ↔ file.CountsFit := by
  constructor
  · intro readBack
    exact (fits_iff.mp (fits_of_ofBytes readBack)).2
  · intro counts
    exact ofBytes_bytes (fits_iff.mpr ⟨reachable.wellFormed, counts⟩)

/-- A pool with one constant, which takes two slots. -/
def widePool : ConstantPool where
  slots := #[none, some (.long 86400), none]

theorem reachable_widePool : widePool.Reachable := by
  have read : ConstantPool.read ⟨0, widePool.bytes⟩ = .ok (widePool, ⟨11, []⟩) := by decide +kernel
  exact .read read

/-- A class whose pool was read, and then asked for a method and for a string. -/
def extendedSample : ClassFile where
  minorVersion := 0
  majorVersion := 52
  pool := (InternRequest.serve (.string "main")
    (InternRequest.serve (.methodRef DiagnosticPrologue.println) widePool).2).2
  access := Access.publicFlag
  thisClass := 4
  superClass := 0
  interfaces := [4]
  fields := [⟨Access.privateFlag, 5, 6, []⟩]
  methods := [⟨Access.staticFlag, 5, 6, [⟨5, [1, 2, 3]⟩, ⟨6, []⟩]⟩]
  attributes := [⟨9, [0]⟩]

theorem countsFit_extendedSample : extendedSample.CountsFit where
  texts := by
    have wide : widePool.Sound :=
      ⟨reachable_widePool.wellFormed, by simp [ConstantPool.TextsFit, widePool, Constant.Fits]⟩
    have references : ∀ owner pair, (Constant.methodRef owner pair).Fits := fun _ _ => trivial
    have withMethod := Interning.sound_reference wide references
      (by decide +kernel : DiagnosticPrologue.println.Fits)
    exact (Interning.sound_string withMethod (by decide +kernel : Text.Fits "main")).textsFit
  interfaces := by decide
  fields := by simp [Member.ListFits, Member.Fits, Attribute.ListFits, extendedSample]
  methods := by
    simp [Member.ListFits, Member.Fits, Attribute.ListFits, Attribute.Fits, extendedSample]
  attributes := by simp [Attribute.ListFits, Attribute.Fits, extendedSample]

/-- The class with a pool that was read and extended is read back as it was written. -/
theorem ofBytes_bytes_extendedSample :
    extendedSample.pool.Reachable ∧ extendedSample.pool.count = 11 ∧
      ofBytes extendedSample.bytes = .ok extendedSample := by
  have reachable : extendedSample.pool.Reachable := .serve _ (.serve _ reachable_widePool)
  exact ⟨reachable, by decide +kernel, (ofBytes_bytes_iff reachable).mpr countsFit_extendedSample⟩

end ClassFile

end Lookout

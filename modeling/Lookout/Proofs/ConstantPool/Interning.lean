/-
# What an interned index leads to

Each of the interning operations leaves a grown pool of the same good form, and
the index that it yields leads, in that pool and in all that grow from it, to
exactly the text, class, string or member that was asked for.
-/

import Lookout.Proofs.ConstantPool.Growth

namespace Lookout

/-- Whether the text can be written as a constant. -/
def Text.Fits (text : String) : Prop := (Text.ModifiedUtf8.encode text).length < 65536

/-- Whether the names in the reference can be written as constants. -/
structure MemberReference.Fits (member : MemberReference) : Prop where
  owner : Text.Fits member.owner
  name : Text.Fits member.name
  descriptor : Text.Fits member.descriptor

instance (text : String) : Decidable (Text.Fits text) :=
  inferInstanceAs (Decidable ((Text.ModifiedUtf8.encode text).length < 65536))

instance (member : MemberReference) : Decidable member.Fits :=
  decidable_of_iff (Text.Fits member.owner ∧ Text.Fits member.name ∧ Text.Fits member.descriptor)
    ⟨fun ⟨owner, name, descriptor⟩ => ⟨owner, name, descriptor⟩,
      fun fits => ⟨fits.owner, fits.name, fits.descriptor⟩⟩

/-- A text that is read from a pool is no longer in its prescribed encoding. -/
theorem ConstantPool.fits_of_utf8 {pool : ConstantPool} (textsFit : pool.TextsFit) {index : UInt16}
    {text : String} (found : pool.utf8 index = .ok text) : Text.Fits text := by
  obtain ⟨bytes, there, decoded⟩ := utf8_eq_ok_iff.mp found
  have short : bytes.length < 65536 := textsFit _ (mem_slots_of_get there)
  exact Nat.lt_of_le_of_lt (Text.ModifiedUtf8.length_encode_le_of_decode? decoded) short

theorem ConstantPool.fits_of_className {pool : ConstantPool} (textsFit : pool.TextsFit)
    {index : UInt16} {name : String} (found : pool.className index = .ok name) :
    Text.Fits name := by
  obtain ⟨constant, -, isName⟩ := bindExcept_eq_ok_iff.mp found
  cases constant with
  | classInfo nameIndex => exact fits_of_utf8 textsFit isName
  | _ => cases isName

theorem ConstantPool.fits_of_stringText? {pool : ConstantPool} (textsFit : pool.TextsFit)
    {index : UInt16} {text : String} (found : pool.stringText? index = some text) :
    Text.Fits text := by
  unfold stringText? at found
  split at found
  · exact fits_of_utf8 textsFit (eq_ok_of_toOption found)
  · cases found

theorem ConstantPool.fits_of_memberReference {pool : ConstantPool} (textsFit : pool.TextsFit)
    {index : UInt16} {member : MemberReference} (found : pool.memberReference index = .ok member) :
    member.Fits := by
  obtain ⟨_, _, _, _, _, -, -, -, owner, name, descriptor⟩ := memberReference_eq_ok_iff.mp found
  exact ⟨fits_of_className textsFit owner, fits_of_utf8 textsFit name,
    fits_of_utf8 textsFit descriptor⟩

/-- A pool that is read back from what is written for it. -/
structure ConstantPool.Sound (pool : ConstantPool) : Prop where
  wellFormed : pool.WellFormed
  textsFit : pool.TextsFit

namespace Interning

open Effect ConstantPool

/-! ### What is kept -/

theorem keeps_growsTo (base : ConstantPool) (item : Constant) :
    Keeps base.GrowsTo (constant item) :=
  fun pool grows => grows.trans (growsTo_intern pool item)

theorem keeps_wellFormed (item : Constant) : Keeps WellFormed (constant item) :=
  fun _ wellFormed => wellFormed_intern wellFormed item

theorem keeps_textsFit (item : Constant) (fits : item.Fits) : Keeps TextsFit (constant item) :=
  fun _ fit => textsFit_intern fit fits

/-- Constants that are no texts always fit. -/
theorem fits_of_not_text (item : Constant) (noText : ∀ bytes, item ≠ .utf8 bytes) : item.Fits := by
  cases item with
  | utf8 bytes => exact absurd rfl (noText bytes)
  | _ => trivial

/-- An operation that keeps whatever adding constants keeps leaves a pool that grew
from the one it was given and is as well formed. -/
theorem grown_of_keeps {α : Type} {action : Interning α}
    (keeps : ∀ property : ConstantPool → Prop, (∀ item, Keeps property (constant item)) →
      Keeps property action) {pool : ConstantPool} (wellFormed : pool.WellFormed) :
    pool.GrowsTo (action pool).2 ∧ (action pool).2.WellFormed :=
  ⟨keeps pool.GrowsTo (keeps_growsTo pool) pool (.refl pool),
    keeps WellFormed keeps_wellFormed pool wellFormed⟩

section Grown

variable {pool : ConstantPool} (wellFormed : pool.WellFormed)

include wellFormed

theorem grown_utf8 (text : String) :
    pool.GrowsTo (utf8 text pool).2 ∧ (utf8 text pool).2.WellFormed :=
  grown_of_keeps (fun _ keeps => keeps _) wellFormed

theorem grown_classInfo (name : String) :
    pool.GrowsTo (classInfo name pool).2 ∧ (classInfo name pool).2.WellFormed :=
  grown_of_keeps (fun _ keeps => keeps_classInfo (fun _ => True) (fun item _ => keeps item)
    (fun _ _ => trivial) trivial) wellFormed

theorem grown_string (text : String) :
    pool.GrowsTo (string text pool).2 ∧ (string text pool).2.WellFormed :=
  grown_of_keeps (fun _ keeps => keeps_string (fun _ => True) (fun item _ => keeps item)
    (fun _ _ => trivial) trivial) wellFormed

theorem grown_nameAndType (name descriptor : String) :
    pool.GrowsTo (nameAndType name descriptor pool).2 ∧
      (nameAndType name descriptor pool).2.WellFormed :=
  grown_of_keeps (fun _ keeps => keeps_nameAndType (fun _ => True)
    (fun item _ => keeps item) (fun _ _ => trivial) trivial trivial) wellFormed

theorem grown_reference (make : UInt16 → UInt16 → Constant) (member : MemberReference) :
    pool.GrowsTo (reference make member pool).2 ∧ (reference make member pool).2.WellFormed :=
  grown_of_keeps (fun _ keeps => keeps_reference (fun _ => True)
    (fun item _ => keeps item) (fun _ _ => trivial) (fun _ _ => trivial) trivial trivial trivial)
    wellFormed

end Grown

/-! ### What can still be written -/

theorem sound_utf8 {pool : ConstantPool} (sound : pool.Sound) {text : String}
    (fits : Text.Fits text) : (utf8 text pool).2.Sound :=
  ⟨(grown_utf8 sound.wellFormed text).2,
    keeps_utf8 Constant.Fits keeps_textsFit fits pool sound.textsFit⟩

theorem sound_string {pool : ConstantPool} (sound : pool.Sound) {text : String}
    (fits : Text.Fits text) : (string text pool).2.Sound :=
  ⟨(grown_string sound.wellFormed text).2,
    keeps_string Constant.Fits keeps_textsFit fits_of_not_text fits pool sound.textsFit⟩

/-- Constants made of two indices always fit. -/
theorem textsFit_reference {pool : ConstantPool} (fit : pool.TextsFit)
    {make : UInt16 → UInt16 → Constant} (noText : ∀ owner pair, (make owner pair).Fits)
    {member : MemberReference} (fits : member.Fits) : (reference make member pool).2.TextsFit :=
  keeps_reference Constant.Fits keeps_textsFit fits_of_not_text noText fits.owner fits.name
    fits.descriptor pool fit

theorem sound_reference {pool : ConstantPool} (sound : pool.Sound)
    {make : UInt16 → UInt16 → Constant} (noText : ∀ owner pair, (make owner pair).Fits)
    {member : MemberReference} (fits : member.Fits) : (reference make member pool).2.Sound :=
  ⟨(grown_reference sound.wellFormed make member).2, textsFit_reference sound.textsFit noText fits⟩

/-! ### Where the index leads -/

section Leads

variable {pool later : ConstantPool} {index : UInt16} (wellFormed : pool.WellFormed)

include wellFormed

theorem get_of_constant {item : Constant} (success : constant item pool = (.ok index, later)) :
    later.get index = .ok item :=
  get_of_intern wellFormed.count_le success

theorem utf8Matches_of_utf8 {text : String} (success : utf8 text pool = (.ok index, later)) :
    later.utf8Matches index text = true :=
  utf8Matches_iff.mpr (get_of_constant wellFormed success)

theorem utf8_of_utf8 {text : String} (success : utf8 text pool = (.ok index, later)) :
    later.utf8 index = .ok text :=
  utf8_of_utf8Matches (utf8Matches_of_utf8 wellFormed success)

omit wellFormed in
/-- After a text and then a constant were interned, both indices lead where they
should. -/
private theorem get_of_then_constant {β : Type} {first : Interning β} {value : β}
    {between : ConstantPool}
    (grown : pool.GrowsTo (first pool).2 ∧ (first pool).2.WellFormed)
    (firstSuccess : first pool = (.ok value, between)) {item : Constant}
    (success : constant item between = (.ok index, later)) :
    between.GrowsTo later ∧ later.get index = .ok item := by
  rw [firstSuccess] at grown
  have grows := growsTo_intern between item
  rw [show between.intern item = (.ok index, later) from success] at grows
  exact ⟨grows, get_of_intern grown.2.count_le success⟩

theorem className_of_classInfo {name : String}
    (success : classInfo name pool = (.ok index, later)) :
    later.className index = .ok name := by
  obtain ⟨nameIndex, between, nameSuccess, success⟩ := bind_eq_ok_iff.mp success
  obtain ⟨grows, there⟩ :=
    get_of_then_constant (grown_utf8 wellFormed name) nameSuccess success
  exact bindExcept_eq_ok_iff.mpr ⟨_, there, grows.utf8 (utf8_of_utf8 wellFormed nameSuccess)⟩

theorem stringText?_of_string {text : String} (success : string text pool = (.ok index, later)) :
    later.stringText? index = some text := by
  obtain ⟨textIndex, between, textSuccess, success⟩ := bind_eq_ok_iff.mp success
  obtain ⟨grows, there⟩ :=
    get_of_then_constant (grown_utf8 wellFormed text) textSuccess success
  rw [stringText?, there]
  dsimp only
  rw [grows.utf8 (utf8_of_utf8 wellFormed textSuccess)]
  rfl

theorem get_of_nameAndType {name descriptor : String}
    (success : nameAndType name descriptor pool = (.ok index, later)) :
    ∃ nameIndex descriptorIndex, later.get index = .ok (.nameAndType nameIndex descriptorIndex) ∧
      later.utf8 nameIndex = .ok name ∧ later.utf8 descriptorIndex = .ok descriptor := by
  obtain ⟨nameIndex, between, nameSuccess, success⟩ := bind_eq_ok_iff.mp success
  obtain ⟨descriptorIndex, between', descriptorSuccess, success⟩ := bind_eq_ok_iff.mp success
  have grown := grown_utf8 wellFormed name
  rw [nameSuccess] at grown
  have grownFurther := grown_utf8 grown.2 descriptor
  obtain ⟨grows, there⟩ := get_of_then_constant grownFurther descriptorSuccess success
  rw [descriptorSuccess] at grownFurther
  exact ⟨nameIndex, descriptorIndex, there,
    grows.utf8 (grownFurther.1.utf8 (utf8_of_utf8 wellFormed nameSuccess)),
    grows.utf8 (utf8_of_utf8 grown.2 descriptorSuccess)⟩

theorem get_of_reference {make : UInt16 → UInt16 → Constant} {member : MemberReference}
    (success : reference make member pool = (.ok index, later)) :
    ∃ owner pair, later.get index = .ok (make owner pair) := by
  obtain ⟨owner, between, ownerSuccess, success⟩ := bind_eq_ok_iff.mp success
  obtain ⟨pair, between', pairSuccess, success⟩ := bind_eq_ok_iff.mp success
  have grown := grown_classInfo wellFormed member.owner
  rw [ownerSuccess] at grown
  have grownFurther := grown_nameAndType grown.2 member.name member.descriptor
  exact ⟨owner, pair, (get_of_then_constant grownFurther pairSuccess success).2⟩

/-- A reference to a field, method or interface method leads to the member. -/
theorem memberReference_of_reference {make : UInt16 → UInt16 → Constant} {member : MemberReference}
    (isReference : make = .fieldRef ∨ make = .methodRef ∨ make = .interfaceMethodRef)
    (success : reference make member pool = (.ok index, later)) :
    later.memberReference index = .ok member := by
  obtain ⟨ownerIndex, between, ownerSuccess, success⟩ := bind_eq_ok_iff.mp success
  obtain ⟨pairIndex, between', pairSuccess, success⟩ := bind_eq_ok_iff.mp success
  have grown := grown_classInfo wellFormed member.owner
  rw [ownerSuccess] at grown
  have grownFurther := grown_nameAndType grown.2 member.name member.descriptor
  obtain ⟨grows, there⟩ := get_of_then_constant grownFurther pairSuccess success
  rw [pairSuccess] at grownFurther
  have ownerThere := grows.className
    (grownFurther.1.className (className_of_classInfo wellFormed ownerSuccess))
  obtain ⟨nameIndex, descriptorIndex, pairThere, nameThere, descriptorThere⟩ :=
    get_of_nameAndType grown.2 pairSuccess
  exact memberReference_eq_ok_iff.mpr ⟨make, ownerIndex, pairIndex, nameIndex, descriptorIndex,
    isReference, there, grows.get_eq_ok pairThere, ownerThere, grows.utf8 nameThere,
    grows.utf8 descriptorThere⟩

end Leads

end Interning

end Lookout

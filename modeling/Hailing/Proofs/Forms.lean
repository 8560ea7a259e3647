import Mathlib.Data.List.Forall2
import Hailing.Json.Form
import Hailing.Json.Scalar
import Hailing.Proofs.Drafts
import Hailing.Proofs.Instants

/-!
# Values that are read as they were written

A decoder reads a value if it finds it in the draft of what is written for it,
as long as it may still go deep enough (`Reads`). Single values are read by the
lemmas on their texts, and lists and optional values if what is in them is. A
record is read by its form. Forms are put together field by field, and so is the
reason why a record fills one (`Form.Fills`): a field has the name that is asked
for and its value is read, and a form for a function and one for its argument
share out the fields among them.

The fields may stand in any order. They are looked up by name, and what the
check of a record keeps of it is the record itself (`checkFields_eq`). A tag is
taken out from wherever it stands (`splitTag_tag`), which leaves the record of
the other fields.
-/

namespace Hailing.Json

open Time (Instant)

variable {α β : Type} {n : Nat} {v : Value} {a : α} {decode : Decoder α}

/-! ## Values that are read -/

namespace Value

/-- The doubles in a value are read back. -/
def Legible (v : Value) : Prop := ∀ x ∈ v.reals, ReadsBack x

theorem text_ne_null {s : String} : text s ≠ .null := nofun

theorem real_ne_null {x : Float} : real x ≠ .null := nofun

theorem record_ne_null {fields : List (String × Value)} : record fields ≠ .null := nofun

theorem Legible.item {items : List Value} (h : (list items).Legible) (hv : v ∈ items) :
    v.Legible := by
  intro x hx
  refine h x ?_
  rw [reals_list]
  exact List.mem_flatMap.2 ⟨v, hv, hx⟩

theorem Legible.field {fields : List (String × Value)} (h : (record fields).Legible)
    {f : String × Value} (hf : f ∈ fields) : f.2.Legible := by
  intro x hx
  refine h x ?_
  rw [reals_record]
  exact List.mem_flatMap.2 ⟨f, hf, hx⟩

/-- A record without doubles. -/
theorem legible_of_fields {fields : List (String × Value)} (h : ∀ f ∈ fields, f.2.reals = []) :
    (record fields).Legible := by
  intro x hx
  rw [reals_record, List.flatMap_eq_nil_iff.2 h] at hx
  cases hx

theorem Legible.areNumber {x : Float} (h : (real x).Legible) :
    ∃ v, (real x).draft = .number v ∧ ∀ depth, Decode.real depth (.number v) = .ok x := by
  have hx : ReadsBack x := h x (by rw [reals]; exact List.mem_singleton_self x)
  obtain ⟨v, hv, hread⟩ := hx.areNumber
  exact ⟨v, Draft.draft_real hv, hread⟩

end Value

/-- The decoder finds the value in the draft of its text, wherever it may go
deeper than `n`. -/
def Reads (n : Nat) (decode : Decoder α) (v : Value) (a : α) : Prop :=
  v.Legible → ∀ depth, n < depth → decode depth v.draft = .ok a

theorem deeper_eq {depth : Nat} (h : 1 < depth) : deeper depth = .ok (depth - 1) :=
  if_neg (Nat.not_le.2 h)

theorem parsed_text {read : String → Option α} {s : String} (h : read s = some a)
    (depth : Nat) : Decode.parsed read depth (.text (some s)) = .ok a :=
  bind_eq_ok.2 ⟨s, rfl, by rw [h]⟩

namespace Reads

theorem text (n : Nat) (s : String) : Reads n Decode.text (.text s) s := fun _ _ _ => rfl

theorem bool (n : Nat) (b : Bool) : Reads n Decode.bool (.bool b) b := fun _ _ _ => rfl

theorem real (n : Nat) (x : Float) : Reads n Decode.real (.real x) x := by
  intro h depth _
  obtain ⟨v, hv, hread⟩ := h.areNumber
  rw [hv]
  exact hread depth

theorem word {meaning : String → Option α} {w : String} (n : Nat) (h : meaning w = some a) :
    Reads n (Decode.word meaning) (.text w) a := by
  intro _ depth _
  rw [Value.draft, Decode.word, h]

theorem parsed {read : String → Option α} {s : String} (n : Nat) (h : read s = some a) :
    Reads n (Decode.parsed read) (.text s) a := by
  intro _ depth _
  rw [Value.draft]
  exact parsed_text h depth

theorem uuid (n : Nat) (u : Uuid) : Reads n Uuid.decoder u.toValue u :=
  .parsed n u.ofString?_toString

theorem instant (n : Nat) (t : Instant) : Reads n Instant.decoder t.toValue t :=
  .parsed n t.ofString?_toWire

theorem natural (n : Nat) {bound k : Nat} (hk : k < bound) (hb : bound ≤ UInt64.size) :
    Reads n (Decode.natural bound) (.whole k) k := by
  intro _ depth _
  rw [Value.draft, ofInt_natural (Nat.lt_of_lt_of_le hk hb)]
  exact if_pos hk

theorem unsigned32 (n : Nat) (k : UInt32) : Reads n Decode.unsigned32 (.whole k.toNat) k := by
  intro hl depth hd
  rw [Decode.unsigned32, natural n k.toNat_lt (by decide) hl depth hd]
  exact congrArg Except.ok UInt32.ofNat_toNat

theorem unsigned64 (n : Nat) (k : UInt64) : Reads n Decode.unsigned64 (.whole k.toNat) k := by
  intro hl depth hd
  rw [Decode.unsigned64, natural n k.toNat_lt (Nat.le_refl _) hl depth hd]
  exact congrArg Except.ok UInt64.ofNat_toNat

/-- Any whole number that fits into 64 bits with its sign. -/
theorem integer (n : Nat) {k : Int} (hl : -0x8000000000000000 ≤ k) (hu : k < 0x8000000000000000) :
    Reads n Decode.integer (.whole k) k := by
  intro _ depth _
  rw [Value.draft]
  rcases Int.lt_or_le k 0 with hneg | hpos
  · obtain ⟨m, rfl⟩ : ∃ m : Nat, k = -(m : Int) := ⟨k.natAbs, by omega⟩
    have hm : m ≤ UInt64.size / 2 := by
      unfold UInt64.size
      omega
    rw [ofInt_negative (by omega) hm]
    rfl
  · obtain ⟨m, rfl⟩ := Int.eq_ofNat_of_zero_le hpos
    have hm : m < UInt64.size / 2 := by
      unfold UInt64.size
      omega
    rw [ofInt_natural (by unfold UInt64.size at *; omega)]
    exact if_pos hm

theorem signed64 (n : Nat) (k : Int64) : Reads n Decode.signed64 (.whole k.toInt) k := by
  intro hl depth hd
  have hk := integer n k.le_toInt k.toInt_lt hl depth hd
  rw [Decode.signed64, hk]
  exact congrArg Except.ok k.ofInt_toInt

/-- What is there is not taken for missing. -/
theorem some (h : Reads n decode v a) (hv : v ≠ .null) :
    Reads n (Decode.optional decode) v (some a) := by
  intro hl depth hd
  have hread := h hl depth hd
  cases v with
  | null => exact absurd rfl hv
  | real x =>
      obtain ⟨w, hw, -⟩ := hl.areNumber
      rw [hw] at hread ⊢
      exact congrArg (Option.some <$> ·) hread
  | bool | whole | text | list | record => exact congrArg (Option.some <$> ·) hread

theorem ofOption {f : α → Value} (h : ∀ a, Reads n decode (f a) a) (hf : ∀ a, f a ≠ .null)
    (o : Option α) : Reads n (Decode.optional decode) (.ofOption f o) o := by
  cases o with
  | none => exact fun _ _ _ => rfl
  | some a => exact (h a).some (hf a)

theorem list {as : List α} {vs : List Value}
    (h : List.Forall₂ (fun a v => Reads n decode v a) as vs) :
    Reads (n + 1) (Decode.list decode) (.list vs) as := by
  intro hl depth hd
  have hitems : Decode.items decode (depth - 1) (vs.map (·.draft)) = .ok as := by
    have hall : ∀ v ∈ vs, v.Legible := fun v hv => hl.item hv
    clear hl
    induction h with
    | nil => rfl
    | @cons a v as vs hfirst _ ih =>
        have ha := hfirst (hall v List.mem_cons_self) (depth - 1) (by omega)
        have has := ih fun w hw => hall w (List.mem_cons_of_mem v hw)
        rw [List.map_cons, Decode.items, ha, has]
        rfl
  rw [Value.draft_list, Decode.list, deeper_eq (by omega)]
  exact bind_eq_ok.2 ⟨_, rfl, bind_eq_ok.2 ⟨as, hitems, rfl⟩⟩

theorem map {f : α → Value} (h : ∀ a, Reads n decode (f a) a) (as : List α) :
    Reads (n + 1) (Decode.list decode) (.list (as.map f)) as :=
  list (List.forall₂_map_right_iff.2 (List.forall₂_same.2 fun a _ => h a))

end Reads

/-! ## Records that are read -/

/-- The value of a record, under its names. -/
abbrev Given := List (String × Value)

def drafted (f : String × Value) : Option String × Draft := (some f.1, f.2.draft)

theorem checkFields_eq {rules : List Decode.Rule} {depth : Nat} {given : Given}
    (hrules : ∀ f ∈ given, ∃ rule, rules.find? (·.name == f.1) = some rule ∧
      rule.check depth f.2.draft = .ok ())
    (hd : (given.map (·.1)).Nodup) {found : Decode.Fields}
    (hnew : ∀ f ∈ given, found.any (·.1 == f.1) = false) :
    Decode.checkFields rules depth found (given.map drafted) =
      .ok (found ++ given.map fun f => (f.1, f.2.draft)) := by
  induction given generalizing found with
  | nil => simp [Decode.checkFields]
  | cons f given ih =>
      obtain ⟨rule, hfind, hcheck⟩ := hrules f List.mem_cons_self
      rw [List.map_cons, List.nodup_cons] at hd
      have hnext : ∀ g ∈ given, (found ++ [(f.1, f.2.draft)]).any (·.1 == g.1) = false := by
        intro g hg
        have hne : f.1 ≠ g.1 := fun he => hd.1 (he ▸ List.mem_map_of_mem hg)
        simp [hnew g (List.mem_cons_of_mem f hg), hne]
      have hrest := ih (fun g hg => hrules g (List.mem_cons_of_mem f hg)) hd.2 hnext
      rw [List.map_cons, drafted, Decode.checkFields]
      simp only [hfind, hnew f List.mem_cons_self, hcheck]
      show Decode.checkFields rules depth (found ++ [(f.1, f.2.draft)]) (given.map drafted) = _
      rw [hrest]
      simp

theorem find?_rule {rules : List Decode.Rule} {rule : Decode.Rule}
    (hd : (rules.map (·.name)).Nodup) (hr : rule ∈ rules) :
    rules.find? (·.name == rule.name) = some rule := by
  induction rules with
  | nil => cases hr
  | cons first rest ih =>
      rw [List.map_cons, List.nodup_cons] at hd
      rcases List.mem_cons.1 hr with rfl | hr
      · exact List.find?_cons_of_pos (beq_self_eq_true _)
      · have hne : first.name ≠ rule.name := fun he => hd.1 (he ▸ List.mem_map_of_mem hr)
        rw [List.find?_cons_of_neg (by simpa using hne), ih hd.2 hr]

theorem lookup_drafts {given : Given} (hd : (given.map (·.1)).Nodup) {f : String × Value}
    (hf : f ∈ given) : (given.map fun f => (f.1, f.2.draft)).lookup f.1 = some f.2.draft := by
  induction given with
  | nil => cases hf
  | cons first rest ih =>
      rw [List.map_cons, List.nodup_cons] at hd
      rcases List.mem_cons.1 hf with rfl | hf
      · simp
      · have hne : (f.1 == first.1) = false := by
          rw [beq_eq_false_iff_ne]
          exact fun he => hd.1 (he ▸ List.mem_map_of_mem hf)
        rw [List.map_cons, List.lookup_cons, hne]
        exact ih hd.2 hf

namespace Form

/-- The fields of a record fill a form, except for those that are left out: they have
the names that it asks for, each passes the check of its field, and together they make
up the value. -/
structure Fills (form : Form α) (n : Nat) (fields : Given) (left : List String) (a : α) :
    Prop where
  names : (form.rules.map (·.name)).Perm (fields.map (·.1) ++ left)
  needed : ∀ rule ∈ form.rules, rule.presence = .required → rule.name ∈ fields.map (·.1)
  checks : ∀ f ∈ fields, ∃ rule ∈ form.rules, rule.name = f.1 ∧
    (f.2.Legible → ∀ depth, n < depth → rule.check depth f.2.draft = .ok ())
  fill : (∀ f ∈ fields, f.2.Legible) → ∀ found : Decode.Fields,
    (∀ f ∈ fields, found.lookup f.1 = some f.2.draft) →
      (∀ name ∈ left, found.lookup name = none) →
        ∀ depth, n + 1 < depth → form.fill depth found = .ok a

namespace Fills

variable {form : Form α} {fields : Given} {left : List String}

/-- A form of one field, which is there. -/
theorem single {form : Form α} {name : String} {check : Decoder β} {b : β}
    {presence : Decode.Presence} (hrules : form.rules = [.of name check presence])
    (hcheck : Reads n check v b)
    (hfill : v.Legible → ∀ found : Decode.Fields, found.lookup name = some v.draft →
      ∀ depth, n + 1 < depth → form.fill depth found = .ok a) :
    form.Fills n [(name, v)] [] a := by
  refine ⟨by rw [hrules]; exact .refl _, ?_, ?_, fun hl found hfound _ => ?_⟩
  · intro rule hr _
    rw [hrules] at hr
    rw [List.mem_singleton.1 hr]
    exact List.mem_singleton_self _
  · intro f hf
    obtain rfl := List.mem_singleton.1 hf
    refine ⟨.of name check presence, by rw [hrules]; exact List.mem_singleton_self _, rfl,
      fun hl depth hd => ?_⟩
    exact bind_eq_ok.2 ⟨b, hcheck hl depth hd, rfl⟩
  · exact hfill (hl _ (List.mem_singleton_self _)) found (hfound _ (List.mem_singleton_self _))

/-- A form of one field, which is left out. -/
theorem lacking {form : Form α} {name : String} {check : Decoder β}
    {presence : Decode.Presence} (hrules : form.rules = [.of name check presence])
    (hp : presence ≠ .required)
    (hfill : ∀ found : Decode.Fields, found.lookup name = none →
      ∀ depth, form.fill depth found = .ok a) :
    form.Fills n [] [name] a := by
  refine ⟨by rw [hrules]; exact .refl _, ?_, ?_, fun _ found _ hnone depth _ => ?_⟩
  · intro rule hr hrequired
    rw [hrules] at hr
    rw [List.mem_singleton.1 hr] at hrequired
    exact absurd hrequired hp
  · intro _ hf
    cases hf
  · exact hfill found (hnone name (List.mem_singleton_self _)) depth

theorem required (name : String) (h : Reads n decode v a) :
    (Form.required name decode).Fills n [(name, v)] [] a :=
  single rfl h fun hl found hv depth hd => by
    show Decode.get found name decode depth = .ok a
    rw [Decode.get, hv]
    exact h hl (depth - 1) (by omega)

theorem optional (name : String) {o : Option α} (h : Reads n (Decode.optional decode) v o) :
    (Form.optional name decode).Fills n [(name, v)] [] o :=
  single rfl h fun hl found hv depth hd => by
    show Decode.get? found name decode depth = .ok o
    rw [Decode.get?, hv]
    exact h hl (depth - 1) (by omega)

theorem missing (name : String) (decode : Decoder α) :
    (Form.optional name decode).Fills n [] [name] none :=
  lacking rfl (by decide) fun found hnone depth => by
    show Decode.get? found name decode depth = .ok none
    rw [Decode.get?, hnone]

theorem defaulted (name : String) {default : α} (h : Reads n decode v a) :
    (Form.defaulted name decode default).Fills n [(name, v)] [] a :=
  single rfl h fun hl found hv depth hd => by
    simp only [Form.defaulted, hv]
    exact h hl (depth - 1) (by omega)

theorem default (name : String) (decode : Decoder α) (default : α) :
    (Form.defaulted name decode default).Fills n [] [name] default :=
  lacking rfl (by decide) fun found hnone depth => by
    simp only [Form.defaulted, hnone]

theorem map (f : α → β) (h : form.Fills n fields left a) :
    (f <$> form).Fills n fields left (f a) := by
  refine ⟨h.names, h.needed, h.checks, fun hl found hfound hleft depth hd => ?_⟩
  show f <$> form.fill depth found = .ok (f a)
  rw [h.fill hl found hfound hleft depth hd]
  rfl

theorem seq {f : α → β} {first : Form (α → β)} {others : Given} {left' : List String}
    (hf : first.Fills n fields left f) (ha : form.Fills n others left' a) :
    (first <*> form).Fills n (fields ++ others) (left ++ left') (f a) := by
  refine ⟨?_, ?_, ?_, ?_⟩
  · show ((first.rules ++ form.rules).map _).Perm _
    rw [List.map_append, List.map_append]
    refine (hf.names.append ha.names).trans ?_
    rw [List.append_assoc, List.append_assoc]
    exact (List.perm_append_comm_assoc _ _ _).append_left _
  · intro rule hr hrequired
    rw [List.map_append, List.mem_append]
    rcases List.mem_append.1 hr with hr | hr
    · exact .inl (hf.needed rule hr hrequired)
    · exact .inr (ha.needed rule hr hrequired)
  · intro g hg
    rcases List.mem_append.1 hg with hg | hg
    · obtain ⟨rule, hr, hcheck⟩ := hf.checks g hg
      exact ⟨rule, List.mem_append_left _ hr, hcheck⟩
    · obtain ⟨rule, hr, hcheck⟩ := ha.checks g hg
      exact ⟨rule, List.mem_append_right _ hr, hcheck⟩
  · intro hl found hfound hleft depth hd
    have hfirst := hf.fill (fun g hg => hl g (List.mem_append_left _ hg)) found
      (fun g hg => hfound g (List.mem_append_left _ hg))
      (fun name hm => hleft name (List.mem_append_left _ hm)) depth hd
    have hsecond := ha.fill (fun g hg => hl g (List.mem_append_right _ hg)) found
      (fun g hg => hfound g (List.mem_append_right _ hg))
      (fun name hm => hleft name (List.mem_append_right _ hm)) depth hd
    exact bind_eq_ok.2 ⟨f, hfirst, bind_eq_ok.2 ⟨a, hsecond, rfl⟩⟩

/-- A record whose fields fill a form is read, in whatever order they stand. -/
theorem reads_perm (h : form.Fills n fields left a) (hd : (form.rules.map (·.name)).Nodup)
    {given : Given} (hp : given.Perm fields) :
    Reads (n + 1) form.decoder (.record given) a := by
  intro hl depth hdepth
  have hdistinct : (fields.map (·.1) ++ left).Nodup := h.names.nodup_iff.1 hd
  obtain ⟨hfields, -, hdisjoint⟩ := List.nodup_append.1 hdistinct
  have hnames : (given.map (·.1)).Nodup := (hp.map (·.1)).nodup_iff.2 hfields
  have hlegible : ∀ f ∈ fields, f.2.Legible := fun f hf => hl.field (hp.mem_iff.2 hf)
  have hrules : ∀ f ∈ given, ∃ rule, form.rules.find? (·.name == f.1) = some rule ∧
      rule.check (depth - 1) f.2.draft = .ok () := by
    intro f hf
    obtain ⟨rule, hr, hname, hcheck⟩ := h.checks f (hp.mem_iff.1 hf)
    refine ⟨rule, ?_, hcheck (hl.field hf) (depth - 1) (by omega)⟩
    rw [← hname]
    exact find?_rule hd hr
  have hcheck : Decode.checkFields form.rules (depth - 1) [] (given.map drafted) =
      .ok (given.map fun f => (f.1, f.2.draft)) := checkFields_eq hrules hnames fun _ _ => rfl
  have hall : (form.rules.all fun r => r.presence != .required ||
      (given.map fun f => (f.1, f.2.draft)).any (·.1 == r.name)) = true := by
    rw [List.all_eq_true]
    intro rule hr
    by_cases hrequired : rule.presence = .required
    · obtain ⟨f, hf, hfn⟩ :=
        List.mem_map.1 ((hp.map (·.1)).mem_iff.2 (h.needed rule hr hrequired))
      rw [Bool.or_eq_true]
      right
      rw [List.any_map, List.any_eq_true]
      exact ⟨f, hf, beq_iff_eq.2 hfn⟩
    · simp [hrequired]
  have hread : Decode.fields form.rules depth (.record (given.map drafted) none .closed) =
      .ok (given.map fun f => (f.1, f.2.draft)) := by
    rw [Decode.fields, deeper_eq (by omega)]
    exact bind_eq_ok.2 ⟨_, rfl, bind_eq_ok.2 ⟨_, hcheck, bind_eq_ok.2 ⟨(), rfl, if_pos hall⟩⟩⟩
  rw [Value.draft_record, Form.decoder]
  refine bind_eq_ok.2 ⟨_, hread, h.fill hlegible _ (fun f hf => ?_) (fun name hm => ?_) depth
    hdepth⟩
  · exact lookup_drafts hnames (hp.mem_iff.2 hf)
  · refine List.lookup_eq_none_iff.2 fun f hf => ?_
    obtain ⟨g, hg, rfl⟩ := List.mem_map.1 hf
    have hne := hdisjoint g.1 (List.mem_map_of_mem (hp.mem_iff.1 hg)) name hm
    exact bne_iff_ne.2 hne.symm

end Fills

end Form

theorem Reads.record {form : Form α} {fields : Given} (h : form.Fills n fields [] a)
    (hd : (form.rules.map (·.name)).Nodup) : Reads (n + 1) form.decoder (.record fields) a :=
  h.reads_perm hd (.refl _)

/-! ## Records with a tag -/

section Tagged

variable {tag : String} {meaning : String → Option α} {depth : Nat}

theorem splitTag_others {others : Given} (hne : ∀ f ∈ others, f.1 ≠ tag)
    (hflaw : ∀ f ∈ others, Decode.flaw? depth f.2.draft = none) (found : Option α) :
    Decode.splitTag tag meaning depth found (others.map drafted) =
      .ok (found, others.map drafted) := by
  induction others with
  | nil => rfl
  | cons f others ih =>
      have hf : (f.1 == tag) = false := beq_eq_false_iff_ne.2 (hne f List.mem_cons_self)
      have hrest := ih (fun g hg => hne g (List.mem_cons_of_mem f hg))
        fun g hg => hflaw g (List.mem_cons_of_mem f hg)
      rw [List.map_cons, drafted, Decode.splitTag, hf]
      simp only [hflaw f List.mem_cons_self]
      exact bind_eq_ok.2 ⟨_, hrest, rfl⟩

/-- The tag is found wherever it stands. -/
theorem splitTag_tag {before behind : Given} {w : String} (hw : meaning w = some a)
    (hne : ∀ f ∈ before ++ behind, f.1 ≠ tag)
    (hflaw : ∀ f ∈ before ++ behind, Decode.flaw? depth f.2.draft = none) :
    Decode.splitTag tag meaning depth none ((before ++ (tag, .text w) :: behind).map drafted) =
      .ok (some a, (before ++ behind).map drafted) := by
  induction before with
  | nil =>
      rw [List.nil_append, List.map_cons, drafted, Decode.splitTag, if_pos (beq_self_eq_true tag)]
      exact bind_eq_ok.2 ⟨a, parsed_text hw depth, splitTag_others hne hflaw (some a)⟩
  | cons f before ih =>
      have hf : (f.1 == tag) = false := beq_eq_false_iff_ne.2 (hne f List.mem_cons_self)
      have hrest := ih (fun g hg => hne g (List.mem_cons_of_mem f hg))
        fun g hg => hflaw g (List.mem_cons_of_mem f hg)
      rw [List.cons_append, List.map_cons, drafted, Decode.splitTag, hf]
      simp only [hflaw f List.mem_cons_self]
      exact bind_eq_ok.2 ⟨_, hrest, rfl⟩

/-- A record with a tag is read as the tag says, in whatever order its fields
stand. -/
theorem Form.Fills.reads_tagged {form : Form β} {fields : Given} {b : β} {w : String}
    {content : α → Decoder β} (h : form.Fills n fields [] b) (hw : meaning w = some a)
    (hcontent : content a = form.decoder) (hd : (tag :: form.rules.map (·.name)).Nodup)
    (hflaw : ∀ f ∈ fields, ∀ depth, Decode.flaw? depth f.2.draft = none) {given : Given}
    (hp : given.Perm ((tag, .text w) :: fields)) :
    Reads (n + 1) (Decode.tagged tag meaning content) (.record given) b := by
  intro hl depth hdepth
  obtain ⟨before, behind, rfl⟩ := List.append_of_mem (hp.mem_iff.2 List.mem_cons_self)
  have hothers : (before ++ behind).Perm fields := (List.perm_middle.symm.trans hp).cons_inv
  rw [List.nodup_cons] at hd
  have hne : ∀ f ∈ before ++ behind, f.1 ≠ tag := by
    rintro f hf rfl
    refine hd.1 (h.names.mem_iff.2 (List.mem_append_left _ ?_))
    exact List.mem_map_of_mem (hothers.mem_iff.1 hf)
  have hsplit := splitTag_tag hw hne fun f hf => hflaw f (hothers.mem_iff.1 hf) (depth - 1)
  have hlegible : (Value.record (before ++ behind)).Legible := by
    intro x hx
    rw [Value.reals_record] at hx
    obtain ⟨f, hf, hx⟩ := List.mem_flatMap.1 hx
    refine hl.field ?_ x hx
    rcases List.mem_append.1 hf with hf | hf
    · exact List.mem_append_left _ hf
    · exact List.mem_append_right _ (List.mem_cons_of_mem _ hf)
  have hread := h.reads_perm hd.2 hothers hlegible depth hdepth
  rw [Value.draft_record, ← hcontent] at hread
  have hcontents : content a depth (.record ((before ++ behind).map drafted) none .closed) =
      .ok b := hread
  rw [Value.draft_record, Decode.tagged, deeper_eq (by omega)]
  exact bind_eq_ok.2 ⟨_, rfl, bind_eq_ok.2 ⟨_, hsplit, bind_eq_ok.2 ⟨(), rfl, by
    dsimp only
    rw [hcontents]⟩⟩⟩

end Tagged

/-- The text of a value is read as what its draft is. -/
theorem Reads.read_print (h : Reads n decode v a) (hn : n < depthLimit) (hl : v.Legible) :
    read decode v.print = .ok a := by
  unfold read Value.print
  rw [String.toList_ofList, Draft.ofChars_toChars v hl]
  exact bind_eq_ok.2 ⟨a, h hl depthLimit hn, rfl⟩

theorem Reads.readFront_print (h : Reads n decode v a) (hn : n < depthLimit) (hl : v.Legible) :
    readFront decode v.print = .ok a := by
  unfold readFront Value.print
  rw [String.toList_ofList, Draft.ofChars_toChars v hl]
  exact h hl depthLimit hn

end Hailing.Json

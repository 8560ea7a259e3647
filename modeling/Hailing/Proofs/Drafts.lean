import Hailing.Proofs.Tokens

/-!
# The draft of a text that was written

What is written for a value has the draft of the value (`Value.draft`): lists
and records are closed, texts are whole, and each number is the one that its
numeral stands for. Drafts are built with the open lists and records on a stack,
so the induction on the value needs to know what happens on top of any stack and
in front of any text: wherever a value can stand, its characters lead to where
its draft would have led at once (`Spells`). For a list this is said of its items
up to the closing bracket, with some of them on the stack already, and for a
record of its fields.
-/

namespace Hailing.Json

/-! ## Values in values -/

namespace Value

/-- What holds of a list or record as soon as it holds of all that is in it
holds of every value. -/
theorem induction {P : Value → Prop} (null : P .null) (bool : ∀ b, P (.bool b))
    (whole : ∀ n, P (.whole n)) (real : ∀ x, P (.real x)) (text : ∀ s, P (.text s))
    (list : ∀ items, (∀ v ∈ items, P v) → P (.list items))
    (record : ∀ fields, (∀ f ∈ fields, P f.2) → P (.record fields)) (v : Value) : P v :=
  @Value.rec P (fun items => ∀ v ∈ items, P v) (fun fields => ∀ f ∈ fields, P f.2)
    (fun f => P f.2) null bool whole real text list record (List.forall_mem_nil _)
    (fun _ _ hv hrest => List.forall_mem_cons.2 ⟨hv, hrest⟩) (List.forall_mem_nil _)
    (fun _ _ hf hrest => List.forall_mem_cons.2 ⟨hf, hrest⟩) (fun _ _ hv => hv) v

mutual

/-- The doubles in a value. -/
def reals : Value → List Float
  | .real x => [x]
  | .list items => itemReals items
  | .record fields => fieldReals fields
  | _ => []

def itemReals : List Value → List Float
  | [] => []
  | v :: rest => v.reals ++ itemReals rest

def fieldReals : List (String × Value) → List Float
  | [] => []
  | (_, v) :: rest => v.reals ++ fieldReals rest

end

@[simp] theorem reals_list (items : List Value) :
    (list items).reals = items.flatMap reals := by
  rw [reals]
  induction items with
  | nil => rfl
  | cons v rest ih => rw [itemReals, List.flatMap_cons, ih]

@[simp] theorem reals_record (fields : List (String × Value)) :
    (record fields).reals = fields.flatMap (·.2.reals) := by
  rw [reals]
  induction fields with
  | nil => rfl
  | cons f rest ih => rw [fieldReals, List.flatMap_cons, ih]

mutual

/-- The draft of the text of a value. -/
def draft : Value → Draft
  | .null => .null
  | .bool b => .bool b
  | .whole n => .number (.ofInt n)
  | .real x => (Draft.ofChars (real x).toChars).1
  | .text s => .text (some s)
  | .list items => .list (itemDrafts items) .closed
  | .record fields => .record (fieldDrafts fields) none .closed

def itemDrafts : List Value → List Draft
  | [] => []
  | v :: rest => v.draft :: itemDrafts rest

def fieldDrafts : List (String × Value) → List (Option String × Draft)
  | [] => []
  | (k, v) :: rest => (some k, v.draft) :: fieldDrafts rest

end

theorem draft_list (items : List Value) :
    (list items).draft = .list (items.map draft) .closed := by
  rw [draft]
  congr 1
  induction items with
  | nil => rfl
  | cons v rest ih => rw [itemDrafts, List.map_cons, ih]

theorem draft_record (fields : List (String × Value)) :
    (record fields).draft =
      .record (fields.map fun f => (some f.1, f.2.draft)) none .closed := by
  rw [draft]
  congr 1
  induction fields with
  | nil => rfl
  | cons f rest ih => rw [fieldDrafts, List.map_cons, ih]

end Value

/-! ## Drafts of texts -/

namespace Draft

/-- Goes on behind a token. -/
def resume : Progress → List Token → Draft × List Token
  | .going expected frames, ts => build ts expected frames
  | .complete d, ts => (d, ts)
  | .stopped d, _ => (d, [])

theorem build_cons (t : Token) (ts : List Token) (expected : Expected) (frames : List Frame) :
    build (t :: ts) expected frames = resume (advance t expected frames) ts := by
  rw [build]
  cases advance t expected frames <;> rfl

/-- A value can stand here. -/
def Expected.IsItem : Expected → Prop
  | .item => True
  | .itemOrEnd => True
  | _ => False

/-- A key can stand here. -/
def Expected.IsKey : Expected → Prop
  | .key => True
  | .keyOrEnd => True
  | _ => False

/-- Where a value can stand, these characters are taken for the draft. -/
def Spells (cs : List Char) (d : Draft) : Prop :=
  ∀ rest, EndsNumeral rest → ∀ expected : Expected, expected.IsItem → ∀ frames,
    build (tokens (cs ++ rest)) expected frames = resume (finish d frames) (tokens rest)

theorem advance_item {t : Token} (ht : t ≠ .closeList) {expected : Expected}
    (he : expected.IsItem) (frames : List Frame) :
    advance t expected frames = startValue t frames := by
  cases expected with
  | item => rfl
  | itemOrEnd =>
      cases t with
      | closeList => exact absurd rfl ht
      | _ => rfl
  | _ => cases he

theorem advance_key (s : String) {expected : Expected} (he : expected.IsKey)
    (before : List (Option String × Draft)) (key : Option String) (frames : List Frame) :
    advance (.text (some s)) expected (.record before key :: frames) =
      .going .colon (.record before (some s) :: frames) := by
  cases expected with
  | key | keyOrEnd => rfl
  | _ => cases he

/-- A value of one token. -/
theorem Spells.of_token {cs : List Char} {t : Token} {d : Draft}
    (h : ∀ {rest}, EndsNumeral rest → tokens (cs ++ rest) = t :: tokens rest)
    (hstart : ∀ frames, startValue t frames = finish d frames) (ht : t ≠ .closeList) :
    Spells cs d := by
  intro rest hr expected he frames
  rw [h hr, build_cons, advance_item ht he, hstart]

theorem spells_number {cs : List Char} {v : Number} (h : AreNumber cs v) :
    Spells cs (.number v) :=
  Spells.of_token h.tokens_append (fun _ => rfl) nofun

theorem draft_real {x : Float} {v : Number} (h : AreNumber (Value.real x).toChars v) :
    (Value.real x).draft = .number v := by
  rw [Value.draft, ofChars, h.tokens_eq]
  rfl

/-- No numeral goes on with a comma or a closing bracket. -/
theorem endsNumeral_mark {c : Char} (h : c = ',' ∨ c = ']' ∨ c = '}') (rest : List Char) :
    EndsNumeral (c :: rest) := by
  obtain ⟨hdigit, hpoint, he, he'⟩ :
      c.isDigit = false ∧ c ≠ '.' ∧ c ≠ 'e' ∧ c ≠ 'E' := by
    rcases h with rfl | rfl | rfl <;> decide
  refine ⟨?_, ?_, ?_, ?_⟩
  · rintro _ ⟨⟩
    exact hdigit
  all_goals simpa

theorem build_mark (c : Char) (t : Token) (hspace : isSpace c = false)
    (ht : ∀ cs, token c cs = (t, cs)) (rest : List Char) (expected : Expected)
    (frames : List Frame) :
    build (tokens (c :: rest)) expected frames =
      resume (advance t expected frames) (tokens rest) := by
  rw [tokens_cons hspace, ht, build_cons]

/-- The items of a list up to its end. -/
theorem build_items {items : List Value} (hne : items ≠ [])
    (h : ∀ v ∈ items, Spells v.toChars v.draft) {expected : Expected} (he : expected.IsItem)
    (before : List Draft) (frames : List Frame) (rest : List Char) :
    build (tokens (Value.itemsChars items ++ ']' :: rest)) expected (.list before :: frames) =
      resume (finish (.list (before.reverse ++ items.map Value.draft) .closed) frames)
        (tokens rest) := by
  induction items generalizing before expected with
  | nil => exact absurd rfl hne
  | cons v items ih =>
      have hv := h v List.mem_cons_self
      have hitems := fun w hw => h w (List.mem_cons_of_mem v hw)
      cases items with
      | nil =>
          calc build (tokens (v.toChars ++ ']' :: rest)) expected (.list before :: frames)
            _ = build (tokens (']' :: rest)) .delimiter (.list (v.draft :: before) :: frames) :=
                hv _ (endsNumeral_mark (.inr (.inl rfl)) rest) _ he _
            _ = resume (finish (.list (v.draft :: before).reverse .closed) frames)
                  (tokens rest) := build_mark ']' .closeList rfl (fun _ => rfl) rest _ _
            _ = _ := by rw [List.reverse_cons]; rfl
      | cons w items =>
          have hchars : Value.itemsChars (v :: w :: items) ++ ']' :: rest =
              v.toChars ++ ',' :: (Value.itemsChars (w :: items) ++ ']' :: rest) := by
            rw [Value.itemsChars, List.append_assoc]
            · rfl
            · exact List.cons_ne_nil w items
          rw [hchars]
          calc build (tokens (v.toChars ++ ',' :: _)) expected (.list before :: frames)
            _ = build (tokens (',' :: (Value.itemsChars (w :: items) ++ ']' :: rest))) .delimiter
                  (.list (v.draft :: before) :: frames) :=
                hv _ (endsNumeral_mark (.inl rfl) _) _ he _
            _ = build (tokens (Value.itemsChars (w :: items) ++ ']' :: rest)) .item
                  (.list (v.draft :: before) :: frames) :=
                build_mark ',' .comma rfl (fun _ => rfl) _ _ _
            _ = _ := by
                rw [ih (List.cons_ne_nil w items) hitems (show Expected.item.IsItem from trivial),
                  List.reverse_cons, List.append_assoc]
                rfl

theorem spells_list {items : List Value} (h : ∀ v ∈ items, Spells v.toChars v.draft) :
    Spells (Value.list items).toChars (Value.list items).draft := by
  intro rest _ expected he frames
  have hopen : build (tokens ('[' :: (Value.itemsChars items ++ ']' :: rest))) expected frames =
      build (tokens (Value.itemsChars items ++ ']' :: rest)) .itemOrEnd (.list [] :: frames) := by
    rw [build_mark '[' .openList rfl (fun _ => rfl),
      advance_item (show Token.openList ≠ .closeList from nofun) he]
    rfl
  have hchars : (Value.list items).toChars ++ rest =
      '[' :: (Value.itemsChars items ++ ']' :: rest) := by
    rw [Value.toChars, List.append_assoc]
    rfl
  rw [hchars, hopen, Value.draft_list]
  by_cases hne : items = []
  · subst hne
    exact build_mark ']' .closeList rfl (fun _ => rfl) rest _ _
  · exact build_items hne h (show Expected.itemOrEnd.IsItem from trivial) [] frames rest

/-- One field of a record. -/
theorem build_field {v : Value} (hv : Spells v.toChars v.draft) {c : Char}
    (hc : c = ',' ∨ c = ']' ∨ c = '}') (k : String) (rest : List Char) {expected : Expected}
    (he : expected.IsKey) (before : List (Option String × Draft)) (key : Option String)
    (frames : List Frame) :
    build (tokens (quoted k ++ ':' :: (v.toChars ++ c :: rest))) expected
        (.record before key :: frames) =
      build (tokens (c :: rest)) .delimiter
        (.record ((some k, v.draft) :: before) (some k) :: frames) := by
  calc build (tokens (quoted k ++ ':' :: (v.toChars ++ c :: rest))) expected
        (.record before key :: frames)
    _ = build (tokens (':' :: (v.toChars ++ c :: rest))) .colon
          (.record before (some k) :: frames) := by
        rw [tokens_quoted, build_cons, advance_key k he]
        rfl
    _ = build (tokens (v.toChars ++ c :: rest)) .item (.record before (some k) :: frames) :=
        build_mark ':' .colon rfl (fun _ => rfl) _ _ _
    _ = _ := hv _ (endsNumeral_mark hc rest) .item trivial _

/-- The fields of a record up to its end. -/
theorem build_fields {fields : List (String × Value)} (hne : fields ≠ [])
    (h : ∀ f ∈ fields, Spells f.2.toChars f.2.draft) {expected : Expected} (he : expected.IsKey)
    (before : List (Option String × Draft)) (key : Option String) (frames : List Frame)
    (rest : List Char) :
    build (tokens (Value.fieldsChars fields ++ '}' :: rest)) expected
        (.record before key :: frames) =
      resume (finish (.record (before.reverse ++ fields.map fun f => (some f.1, f.2.draft))
        none .closed) frames) (tokens rest) := by
  induction fields generalizing before key expected with
  | nil => exact absurd rfl hne
  | cons f fields ih =>
      obtain ⟨k, v⟩ := f
      have hv := h (k, v) List.mem_cons_self
      have hfields := fun f hf => h f (List.mem_cons_of_mem (k, v) hf)
      cases fields with
      | nil =>
          have hchars : Value.fieldsChars [(k, v)] ++ '}' :: rest =
              quoted k ++ ':' :: (v.toChars ++ '}' :: rest) := by
            rw [Value.fieldsChars, List.append_assoc]
            rfl
          rw [hchars, build_field hv (.inr (.inr rfl)) k rest he,
            build_mark '}' .closeRecord rfl (fun _ => rfl)]
          show resume (finish (.record ((some k, v.draft) :: before).reverse none .closed) _) _ = _
          rw [List.reverse_cons]
          rfl
      | cons g fields =>
          have hchars : Value.fieldsChars ((k, v) :: g :: fields) ++ '}' :: rest =
              quoted k ++ ':' :: (v.toChars ++ ',' ::
                (Value.fieldsChars (g :: fields) ++ '}' :: rest)) := by
            rw [Value.fieldsChars, List.append_assoc, List.append_assoc]
            · rfl
            · exact List.cons_ne_nil g fields
          rw [hchars, build_field hv (.inl rfl) k _ he, build_mark ',' .comma rfl (fun _ => rfl)]
          show build _ .key (.record ((some k, v.draft) :: before) (some k) :: frames) = _
          rw [ih (List.cons_ne_nil g fields) hfields (show Expected.key.IsKey from trivial),
            List.reverse_cons, List.append_assoc]
          rfl

theorem spells_record {fields : List (String × Value)}
    (h : ∀ f ∈ fields, Spells f.2.toChars f.2.draft) :
    Spells (Value.record fields).toChars (Value.record fields).draft := by
  intro rest _ expected he frames
  have hopen : build (tokens ('{' :: (Value.fieldsChars fields ++ '}' :: rest))) expected
      frames = build (tokens (Value.fieldsChars fields ++ '}' :: rest)) .keyOrEnd
        (.record [] none :: frames) := by
    rw [build_mark '{' .openRecord rfl (fun _ => rfl),
      advance_item (show Token.openRecord ≠ .closeList from nofun) he]
    rfl
  have hchars : (Value.record fields).toChars ++ rest =
      '{' :: (Value.fieldsChars fields ++ '}' :: rest) := by
    rw [Value.toChars, List.append_assoc]
    rfl
  rw [hchars, hopen, Value.draft_record]
  by_cases hne : fields = []
  · subst hne
    exact build_mark '}' .closeRecord rfl (fun _ => rfl) rest _ _
  · exact build_fields hne h (show Expected.keyOrEnd.IsKey from trivial) [] none frames rest

/-- Every value is spelled by its text, if its doubles are read back. -/
theorem spells (v : Value) (h : ∀ x ∈ v.reals, ReadsBack x) : Spells v.toChars v.draft := by
  induction v using Value.induction with
  | null => exact Spells.of_token (fun _ => tokens_null _) (fun _ => rfl) nofun
  | bool b => exact Spells.of_token (fun _ => tokens_bool b _) (fun _ => rfl) nofun
  | whole n => exact spells_number (areNumber_whole n)
  | real x =>
      obtain ⟨v, hv, -⟩ := (h x (by simp [Value.reals])).areNumber
      rw [draft_real hv]
      exact spells_number hv
  | text s => exact Spells.of_token (fun _ => tokens_quoted s _) (fun _ => rfl) nofun
  | list items ih =>
      rw [Value.reals_list] at h
      exact spells_list fun v hv => ih v hv fun x hx => h x (List.mem_flatMap.2 ⟨v, hv, hx⟩)
  | record fields ih =>
      rw [Value.reals_record] at h
      exact spells_record fun f hf => ih f hf fun x hx => h x (List.mem_flatMap.2 ⟨f, hf, hx⟩)

theorem ofChars_toChars (v : Value) (h : ∀ x ∈ v.reals, ReadsBack x) :
    ofChars v.toChars = (v.draft, []) := by
  have hend : EndsNumeral [] := ⟨nofun, nofun, nofun, nofun⟩
  have hv := spells v h [] hend .item trivial []
  rw [List.append_nil] at hv
  rw [ofChars, hv, tokens]
  rfl

end Draft

end Hailing.Json

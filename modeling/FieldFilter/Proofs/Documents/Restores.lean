import FieldFilter.Proofs.Documents.Scalars

/-!
# Documents that are read back

A reader that is told how many brackets may open gives back what was written if there are not too
many of them, and otherwise refuses the document.

* `Reader.Decides` — a result that is a value if something fits, and otherwise a refusal;
* `Reader.Restores` — a reader gives back what was written, on one line or over several, in front of
  any text that ends it;
* `Restores.map`, `Restores.checked` — values that are made from what is read;
* `Restores.plain`, `Restores.carrying`, `Restores.listOf` — variants and lists, from their parts;
* `Restores.keyedFields_of_nextKey`, `Restores.keyedFields_close` — the fields of a record;
* `Restores.document` — whole documents.
-/

namespace FieldFilter
namespace Json

/-! ## Writing only adds to the text behind -/

mutual

theorem length_le_write (layout : Layout) :
    ∀ (json : Json) (rest : List Char), rest.length ≤ (write layout json rest).length
  | .int _, rest | .float _, rest | .string _, rest => by simp [write]
  | .null, rest | .bool true, rest | .bool false, rest | .array [], rest | .object [], rest => by
      simp [write]
      omega
  | .array (item :: items), rest => by
      have h := length_le_writeItems layout.inner (item :: items) (layout.lineBreak ++ ']' :: rest)
      simp only [List.length_append, List.length_cons] at h
      simp only [write, List.length_cons]
      omega
  | .object (field :: fields), rest => by
      have h := length_le_writeFields layout.inner (field :: fields)
        (layout.lineBreak ++ '\x7d' :: rest)
      simp only [List.length_append, List.length_cons] at h
      simp only [write, List.length_cons]
      omega

theorem length_le_writeItems (layout : Layout) :
    ∀ (items : List Json) (rest : List Char), rest.length ≤ (writeItems layout items rest).length
  | [], rest => by simp [writeItems]
  | [item], rest => by
      have h := length_le_write layout item rest
      simp only [writeItems, List.length_append]
      omega
  | item :: next :: items, rest => by
      have h := length_le_write layout item (',' :: writeItems layout (next :: items) rest)
      have h' := length_le_writeItems layout (next :: items) rest
      simp only [List.length_cons] at h
      simp only [writeItems, List.length_append] at h ⊢
      omega

theorem length_le_writeFields (layout : Layout) :
    ∀ (fields : List (String × Json)) (rest : List Char),
      rest.length ≤ (writeFields layout fields rest).length
  | [], rest => by simp [writeFields]
  | [(key, value)], rest => by
      have h := length_le_write layout value rest
      simp only [writeFields, List.length_append]
      omega
  | (key, value) :: next :: fields, rest => by
      have h := length_le_write layout value (',' :: writeFields layout (next :: fields) rest)
      have h' := length_le_writeFields layout (next :: fields) rest
      simp only [List.length_cons] at h
      simp only [writeFields, List.length_append] at h ⊢
      omega

end

/-- Every item takes a comma or the bracket that closes the list. -/
theorem length_le_length_writeItems (layout : Layout) (items : List Json) {rest : List Char}
    (hrest : rest ≠ []) : items.length ≤ (writeItems layout items rest).length := by
  have hpos : 0 < rest.length := List.length_pos_iff.2 hrest
  induction items with
  | nil => exact Nat.zero_le _
  | cons item items ih =>
      cases items with
      | nil =>
          have h := length_le_write layout item rest
          simp only [writeItems, List.length_append, List.length_cons, List.length_nil]
          omega
      | cons next items =>
          have h := length_le_write layout item (',' :: writeItems layout (next :: items) rest)
          simp only [writeItems, List.length_append, List.length_cons] at h ih ⊢
          omega

/-- Every field takes a comma or the bracket that closes the object. -/
theorem length_le_length_writeFields (layout : Layout) (fields : List (String × Json))
    {rest : List Char} (hrest : rest ≠ []) :
    fields.length ≤ (writeFields layout fields rest).length := by
  have hpos : 0 < rest.length := List.length_pos_iff.2 hrest
  induction fields with
  | nil => exact Nat.zero_le _
  | cons field fields ih =>
      rcases field with ⟨key, json⟩
      cases fields with
      | nil =>
          have h := length_le_write layout json rest
          simp only [writeFields, List.length_append, List.length_cons, List.length_nil]
          omega
      | cons next fields =>
          have h := length_le_write layout json (',' :: writeFields layout (next :: fields) rest)
          simp only [writeFields, List.length_append, List.length_cons] at h ih ⊢
          omega

namespace Reader

variable {α β : Type} {fits fits' : Prop} {json : Json} {room : Nat}

/-! ## Results that depend on what fits -/

/-- The result is the value if it fits, and otherwise the refusal of a malformed document. -/
structure Decides (result : Except ReadError α) (fits : Prop) (value : α) : Prop where
  gives : fits → result = .ok value
  refuses : ¬ fits → result = .error .malformed

namespace Decides

variable {x : Except ReadError α} {f : α → Except ReadError β} {a : α} {b : β}

theorem congr (h : Decides x fits a) (hfits : fits ↔ fits') : Decides x fits' a :=
  ⟨fun hfit => h.gives (hfits.2 hfit), fun hfit => h.refuses (hfits.not.2 hfit)⟩

/-- What fits whatever room there is. -/
theorem of_eq_ok (h : x = .ok a) : Decides x True a :=
  ⟨fun _ => h, fun hfit => absurd trivial hfit⟩

/-- Two results one after the other, of which the first refusal counts. -/
theorem bind (h : Decides x fits a) (hf : Decides (f a) fits' b) :
    Decides (x.bind f) (fits ∧ fits') b where
  gives hfit := by
    rw [h.gives hfit.1]
    exact hf.gives hfit.2
  refuses hfit := by
    -- behind a first refusal nothing is looked at
    by_cases hfirst : fits
    · rw [h.gives hfirst]
      exact hf.refuses fun hsecond => hfit ⟨hfirst, hsecond⟩
    · rw [h.refuses hfirst]
      rfl

/-- A result that does not depend on room of its own. -/
theorem bind_ok (h : Decides x fits a) (hf : f a = .ok b) : Decides (x.bind f) fits b :=
  (h.bind (.of_eq_ok hf)).congr (by simp)

/-- One more bracket opens only if there is room for it. -/
theorem inBracket (h : Decides x fits a) (room : Nat) :
    Decides (if room = 0 then .error .malformed else x) (0 < room ∧ fits) a where
  gives hfit := by rw [if_neg (Nat.ne_of_gt hfit.1), h.gives hfit.2]
  refuses hfit := by
    split_ifs with hroom
    · rfl
    · exact h.refuses fun hrest => hfit ⟨Nat.pos_of_ne_zero hroom, hrest⟩

end Decides

/-! ## Values that are read back -/

/-- However a value is laid out, behind blanks and in front of any text that ends it, the reader
gives back the value of what was written if it fits, and otherwise refuses it as malformed. -/
def Restores (read : Reader α) (json : Json) (fits : Prop) (value : α) : Prop :=
  ∀ layout blank rest, IsBlank blank → Ends rest →
    Decides (read (blank ++ json.write layout rest)) fits (value, rest)

namespace Restores

variable {read : Reader α} {value : α}

theorem congr (h : Restores read json fits value) (hfits : fits ↔ fits') :
    Restores read json fits' value :=
  fun layout blank rest hblank hends => (h layout blank rest hblank hends).congr hfits

theorem map (h : Restores read json fits value) (f : α → β) :
    Restores (fun cs => do
      let (value, rest) ← read cs
      return (f value, rest)) json fits (f value) :=
  fun layout blank rest hblank hends => (h layout blank rest hblank hends).bind_ok rfl

theorem checked {rule : α → Except String β} {value' : β} (h : Restores read json fits value)
    (hrule : rule value = .ok value') : Restores (checked read rule) json fits value' := by
  intro layout blank rest hblank hends
  refine (h layout blank rest hblank hends).bind_ok ?_
  simp only [hrule]

/-! ### Scalars -/

theorem string (cs : List Char) : Restores Reader.string (.string cs) True cs :=
  fun _ _ rest hblank _ => .of_eq_ok (string_stringText hblank cs rest)

theorem integer (n : Int64) : Restores Reader.integer (.int n.toInt) True n :=
  fun _ _ _ hblank hends => .of_eq_ok (integer_intText hblank n hends)

/-- A float is read back when it is where it stands alone. -/
theorem float {x : Float} (h : Reader.float (floatNotation.render x) = .ok (x, [])) :
    Restores Reader.float (.float x) True x :=
  fun _ _ _ hblank hends => .of_eq_ok (numberAs_append hblank hends h)

/-- A reader that passes over blanks has to be looked at only without them. -/
theorem of_write (hskip : ∀ blank cs, IsBlank blank → read (blank ++ cs) = read cs)
    (h : ∀ layout rest, Ends rest → Decides (read (json.write layout rest)) fits (value, rest)) :
    Restores read json fits value := by
  intro layout blank rest hblank hends
  rw [hskip blank _ hblank]
  exact h layout rest hends

theorem boolean (b : Bool) : Restores Reader.boolean (.bool b) True b := by
  refine of_write ?_ ?_
  · intro blank cs hblank
    simp only [Reader.boolean, skipSpace_append hblank]
  · intro layout rest _
    refine .of_eq_ok ?_
    cases b <;> rfl

/-! ### Variants -/

/-- Among different keys every entry is found by its own. -/
theorem find?_key {ι : Type} {key : ι → String} {entries : List ι} {entry : ι}
    (hkeys : (entries.map key).Nodup) (hmem : entry ∈ entries) :
    (entries.find? fun other => (key other).toList = (key entry).toList) = some entry := by
  induction entries with
  | nil => cases hmem
  | cons first entries ih =>
      rw [List.map_cons, List.nodup_cons] at hkeys
      rcases List.mem_cons.1 hmem with rfl | hmem
      · simp
      · have hne : (key first).toList ≠ (key entry).toList := by
          intro heq
          exact hkeys.1 (String.toList_inj.1 heq ▸ List.mem_map_of_mem hmem)
        rw [List.find?_cons_of_neg (by simpa using hne)]
        exact ih hkeys.2 hmem

section
variable {cases : List (String × Case α)} {key : String}

theorem caseOf_of_mem {case : Case α} (hkeys : (cases.map Prod.fst).Nodup)
    (hmem : (key, case) ∈ cases) : caseOf cases key.toList = .ok case := by
  have hfind := find?_key hkeys hmem
  simp only [caseOf, hfind]

theorem variant_append {blank : List Char} (hblank : IsBlank blank) (cs : List Char) :
    variant room cases (blank ++ cs) = variant room cases cs := by
  simp only [variant, skipSpace_append hblank]

/-- A plain case is written as its name. -/
theorem plain (h : caseOf cases key.toList = .ok (.plain value)) (room : Nat) :
    Restores (variant room cases) (.string key.toList) True value := by
  refine of_write (fun _ cs hblank => variant_append hblank cs) ?_
  intro layout rest _
  refine .of_eq_ok ?_
  simp only [write, stringText_append, variant, skipSpace_cons (c := '"') (by decide),
    stringRest_flatMap, bind, Except.bind, h]
  rfl

/-- What follows the value of a case: the bracket that closes it. -/
def closeVariant : α × List Char → Except ReadError (α × List Char)
  | (value, rest) =>
    match skipSpace rest with
    | '\x7d' :: rest => .ok (value, rest)
    | [] => .error .truncated
    | _ => .error .malformed

theorem closeVariant_append {blank : List Char} (hblank : IsBlank blank) (value : α)
    (rest : List Char) : closeVariant (value, blank ++ '\x7d' :: rest) = .ok (value, rest) := by
  rw [closeVariant, skipSpace_append_cons hblank (by decide)]
  rfl

theorem exists_gap (layout : Layout) : ∃ gap, IsBlank gap ∧ layout.colon = ':' :: gap := by
  cases layout with
  | inline => exact ⟨[], isBlank_nil, rfl⟩
  | lines => exact ⟨[' '], by simp [IsBlank, isSpace], rfl⟩

theorem keyStart_append {blank : List Char} (hblank : IsBlank blank) (cs : List Char) :
    keyStart (blank ++ '"' :: cs) = .ok cs := by
  rw [keyStart, skipSpace_append_cons hblank (by decide)]
  rfl

/-- A case that carries a value takes a bracket around it. -/
theorem carrying {payload : Reader α} (h : caseOf cases key.toList = .ok (.carrying payload))
    (hpayload : Restores payload json fits value) (room : Nat) :
    Restores (variant room cases) (.object [(key, json)]) (0 < room ∧ fits) value := by
  refine of_write (fun _ cs hblank => variant_append hblank cs) ?_
  intro layout rest _
  rcases exists_gap layout.inner with ⟨gap, hgap, hcolon⟩
  have hbreak := isBlank_lineBreak layout
  -- the layout only shows in the blanks: a line break before the key, a gap before the value, and
  -- another line break before the bracket
  have hwrite : write layout (.object [(key, json)]) rest =
      '\x7b' :: (layout.inner.lineBreak ++ '"' :: (key.toList.flatMap stringChar ++
        '"' :: ':' :: (gap ++ write layout.inner json (layout.lineBreak ++ '\x7d' :: rest)))) := by
    simp [write, writeFields, stringText, hcolon]
  have hread : variant room cases (write layout (.object [(key, json)]) rest) =
      if room = 0 then .error .malformed
      else (payload (gap ++ write layout.inner json (layout.lineBreak ++ '\x7d' :: rest))).bind
        closeVariant := by
    rw [hwrite, variant, skipSpace_cons (by decide)]
    simp only [keyStart_append (isBlank_lineBreak _), bind, Except.bind, stringRest_flatMap, h,
      colon, skipSpace_cons (c := ':') (by decide), Case.value]
    rfl
  rw [hread]
  refine Decides.inBracket ?_ room
  exact (hpayload _ _ _ hgap ((Ends.brace rest).lineBreak layout)).bind_ok
    (closeVariant_append hbreak value rest)

end

/-! ### Lists -/

/-- Texts that start an item of a list: with no blank, and not with the bracket that closes the
list. -/
def StartsItem (cs : List Char) : Prop :=
  ∃ c rest, cs = c :: rest ∧ isSpace c = false ∧ c ≠ ']'

/-- What stands behind an item of a list: the items that follow, each behind a comma, and the text
behind the last one. -/
def itemsBehind (layout : Layout) : List Json → List Char → List Char
  | [], close => close
  | json :: jsons, close => ',' :: writeItems layout (json :: jsons) close

theorem ends_itemsBehind (layout : Layout) (jsons : List Json) {close : List Char}
    (hclose : Ends close) : Ends (itemsBehind layout jsons close) := by
  cases jsons with
  | nil => exact hclose
  | cons json jsons => exact .comma _

theorem writeItems_cons (layout : Layout) (json : Json) (jsons : List Json) (close : List Char) :
    writeItems layout (json :: jsons) close =
      layout.lineBreak ++ write layout json (itemsBehind layout jsons close) := by
  cases jsons <;> rfl

section
variable {blank cs : List Char}

theorem nextItem_true (hblank : IsBlank blank) (h : StartsItem cs) :
    nextItem true (blank ++ cs) = .ok (.item cs) := by
  rcases h with ⟨c, rest, rfl, hspace, hbracket⟩
  simp [nextItem, skipSpace_append_cons hblank hspace]

theorem nextItem_false (hblank : IsBlank blank) (h : StartsItem cs) :
    nextItem false (',' :: (blank ++ cs)) = .ok (.item cs) := by
  rcases h with ⟨c, rest, rfl, hspace, hbracket⟩
  simp [nextItem, skipSpace_cons (c := ',') (by decide), skipSpace_append_cons hblank hspace,
    hbracket]

theorem nextItem_close (hblank : IsBlank blank) (isFirst : Bool) (rest : List Char) :
    nextItem isFirst (blank ++ ']' :: rest) = .ok (.close rest) := by
  rw [nextItem, skipSpace_append_cons hblank (by decide)]
  rfl

end

section
variable {item : Reader α} {toJson : α → Json} {fitsItem : α → Prop} {values : List α}
  {layout : Layout} {rest : List Char}

/-- An item in front of others is read, and then the others are. -/
theorem listItems_cons {isFirst : Bool} {steps : Nat} {cs close : List Char} {jsons : List Json}
    (h : Restores item json fits value) (hclose : Ends close)
    (hnext : nextItem isFirst cs = .ok (.item (write layout json (itemsBehind layout jsons close))))
    (hmore : Decides (listItems item steps false (itemsBehind layout jsons close)) fits'
      (values, rest)) :
    Decides (listItems item (steps + 1) isFirst cs) (fits ∧ fits') (value :: values, rest) := by
  rw [listItems, hnext]
  exact (h layout [] _ isBlank_nil (ends_itemsBehind layout jsons hclose)).bind (hmore.bind_ok rfl)

/-- The items of a list behind another one. -/
theorem listItems_itemsBehind {blank : List Char} {steps : Nat} (hblank : IsBlank blank)
    (hclose : Ends (blank ++ ']' :: rest))
    (hitems : ∀ value ∈ values, Restores item (toJson value) (fitsItem value) value)
    (hstarts : ∀ value ∈ values, ∀ rest, StartsItem (write layout (toJson value) rest))
    (hsteps : values.length < steps) :
    Decides (listItems item steps false
        (itemsBehind layout (values.map toJson) (blank ++ ']' :: rest)))
      (∀ value ∈ values, fitsItem value) (values, rest) := by
  induction values generalizing steps with
  | nil =>
      -- the last step finds the bracket
      rcases Nat.exists_eq_add_one_of_ne_zero (Nat.ne_zero_of_lt hsteps) with ⟨steps, rfl⟩
      refine (Decides.of_eq_ok ?_).congr (by simp)
      rw [List.map_nil, itemsBehind, listItems, nextItem_close hblank]
      rfl
  | cons value values ih =>
      rcases Nat.exists_eq_add_one_of_ne_zero (Nat.ne_zero_of_lt hsteps) with ⟨steps, rfl⟩
      have hmore := @ih steps (fun v hv => hitems v (by simp [hv]))
        (fun v hv => hstarts v (by simp [hv])) (Nat.lt_of_succ_lt_succ hsteps)
      refine (listItems_cons (hitems value (by simp)) hclose ?_ hmore).congr
        List.forall_mem_cons.symm
      rw [List.map_cons, itemsBehind, writeItems_cons]
      exact nextItem_false (isBlank_lineBreak layout) (hstarts value (by simp) _)

/-- A list of at least one item takes a bracket around its items. -/
theorem listOf (hne : values ≠ [])
    (hitems : ∀ value ∈ values, Restores item (toJson value) (fitsItem value) value)
    (hstarts : ∀ value ∈ values, ∀ layout rest, StartsItem (write layout (toJson value) rest))
    (room : Nat) :
    Restores (listOf room item) (.array (values.map toJson))
      (0 < room ∧ ∀ value ∈ values, fitsItem value) values := by
  refine of_write (fun _ cs hblank => by simp only [Reader.listOf, skipSpace_append hblank]) ?_
  intro layout rest _
  have hbreak := isBlank_lineBreak layout
  have hclose := (Ends.bracket rest).lineBreak layout
  cases values with
  | nil => exact absurd rfl hne
  | cons value values =>
      have hlength : ((value :: values).map toJson).length ≤
          (writeItems layout.inner ((value :: values).map toJson)
            (layout.lineBreak ++ ']' :: rest)).length :=
        length_le_length_writeItems layout.inner _ (by simp)
      rw [List.length_map, List.length_cons] at hlength
      have hwrite : write layout (.array ((value :: values).map toJson)) rest =
          '[' :: writeItems layout.inner ((value :: values).map toJson)
            (layout.lineBreak ++ ']' :: rest) := rfl
      rw [hwrite, Reader.listOf, skipSpace_cons (by decide)]
      refine Decides.inBracket ?_ room
      -- only the first item has no comma before it
      have hmore := listItems_itemsBehind hbreak hclose (fun v hv => hitems v (by simp [hv]))
        (fun v hv => hstarts v (by simp [hv]) layout.inner) hlength
      refine (listItems_cons (hitems value (by simp)) hclose ?_ hmore).congr
        List.forall_mem_cons.symm
      rw [List.map_cons, writeItems_cons]
      exact nextItem_true (isBlank_lineBreak _) (hstarts value (by simp) _ _)

end

/-! ### Records -/

section
variable {δ : Type} {fields : List (Field δ)} {field : Field δ} {key : String} {draft draft' : δ}
  {steps : Nat} {blank text rest : List Char} {result : δ × List Char}

/-- What stands behind a field of an object: the fields that follow, each behind a comma, and the
text behind the last one. -/
def fieldsBehind (layout : Layout) : List (String × Json) → List Char → List Char
  | [], close => close
  | field :: fields, close => ',' :: writeFields layout (field :: fields) close

theorem ends_fieldsBehind (layout : Layout) (fields : List (String × Json)) {close : List Char}
    (hclose : Ends close) : Ends (fieldsBehind layout fields close) := by
  cases fields with
  | nil => exact hclose
  | cons field fields => exact .comma _

theorem writeFields_cons {layout : Layout} {gap : List Char} (hgap : layout.colon = ':' :: gap)
    (key : String) (json : Json) (fields : List (String × Json)) (close : List Char) :
    writeFields layout ((key, json) :: fields) close =
      layout.lineBreak ++ '"' :: (key.toList.flatMap stringChar ++
        '"' :: ':' :: (gap ++ write layout json (fieldsBehind layout fields close))) := by
  cases fields <;> simp [writeFields, fieldsBehind, stringText, hgap]

theorem nextKey_true (hblank : IsBlank blank) (cs : List Char) :
    nextKey true (blank ++ '"' :: cs) = .ok (.item cs) := by
  rw [nextKey, skipSpace_append_cons hblank (by decide)]
  rfl

theorem nextKey_false (hblank : IsBlank blank) (cs : List Char) :
    nextKey false (',' :: (blank ++ '"' :: cs)) = .ok (.item cs) := by
  have hkey : nextKey false (',' :: (blank ++ '"' :: cs)) =
      (keyStart (blank ++ '"' :: cs)).bind fun cs => .ok (.item cs) := by
    rw [nextKey, skipSpace_cons (by decide)]
    rfl
  rw [hkey, keyStart_append hblank]
  rfl

/-- A field in front of others is read into the draft, and then the others are. -/
theorem keyedFields_of_nextKey {isFirst : Bool} {cs : List Char}
    (hnext : nextKey isFirst cs = .ok (.item (key.toList.flatMap stringChar ++ '"' :: ':' :: text)))
    (hfield : (fields.find? fun field => field.key.toList = key.toList) = some field)
    (hset : field.isSet draft = false) (hread : Decides (field.read draft text) fits (draft', rest))
    (hmore : Decides (keyedFields fields steps false draft' rest) fits' result) :
    Decides (keyedFields fields (steps + 1) isFirst draft cs) (fits ∧ fits') result := by
  -- neither the key nor the colon depends on what fits
  have hunfold : keyedFields fields (steps + 1) isFirst draft cs =
      (field.read draft text).bind fun (draft, rest) =>
        keyedFields fields steps false draft rest := by
    simp only [keyedFields, hnext, bind, Except.bind, stringRest_flatMap, hfield, hset,
      Bool.false_eq_true, if_false, colon, skipSpace_cons (c := ':') (by decide)]
  rw [hunfold]
  exact hread.bind hmore

/-- The bracket that closes a record ends its fields. -/
theorem keyedFields_close (hblank : IsBlank blank) (isFirst : Bool) :
    Decides (keyedFields fields (steps + 1) isFirst draft (blank ++ '\x7d' :: rest)) True
      (draft, rest) := by
  refine .of_eq_ok ?_
  rw [keyedFields, nextKey, skipSpace_append_cons hblank (by decide)]
  rfl

end

/-! ### Whole documents -/

theorem document (h : Restores read json fits value) (layout : Layout) :
    Decides (Reader.document read (json.write layout [])) fits value :=
  (h layout [] [] isBlank_nil .nil).bind_ok rfl

end Restores
end Reader
end Json
end FieldFilter

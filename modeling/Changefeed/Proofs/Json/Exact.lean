import Changefeed.Json.Decode
import Changefeed.Proofs.Json.RoundTrip
import Changefeed.Proofs.SortedMap

/-!
# Documents that come back as they are

A document is exact when its numbers are integers that fit and everything else in it is readable.
Such a document is read back from its text without a change, and it has a value as soon as there is
room for its containers.  The document of a value is exact when the value has no fractions, and its
value is the value it was made of.
-/

namespace Changefeed

namespace Json
namespace Doc

lemma record_eq (fields : List (String × Doc)) :
    record fields = .object (fields.map fun f => (some f.1, f.2)) :=
  rfl

/-! ## Exactness -/

/-- The document is read back from its text as it is. -/
structure Exact (d : Doc) : Prop where
  plain : d.plain = true
  reread : d.reread = d

lemma exact_null : Exact .null := ⟨rfl, rfl⟩

lemma exact_bool (b : Bool) : Exact (.bool b) := ⟨rfl, rfl⟩

lemma exact_text (s : String) : Exact (text s) := ⟨rfl, rfl⟩

lemma exact_int {n : Int} (hn : Number.minInt ≤ n ∧ n ≤ Number.maxInt) : Exact (int n) := by
  refine ⟨rfl, ?_⟩
  rw [int, reread, Literal.value?_ofInt hn.1 hn.2]

lemma exact_array {ds : List Doc} (h : ∀ d ∈ ds, Exact d) : Exact (.array ds) := by
  refine ⟨?_, ?_⟩
  · rw [plain]
    simpa using plainItems_map (f := id) fun d hd => (h d hd).plain
  · rw [reread, rereadItems_eq, List.map_congr_left fun d hd => (h d hd).reread, List.map_id']

/-- A record is exact when its fields are, and only then. -/
lemma exact_record_iff {fields : List (String × Doc)} :
    Exact (record fields) ↔ ∀ f ∈ fields, Exact f.2 := by
  have hfields : (plainFields (fields.map fun f => (some f.1, f.2)) = true ∧
      rereadFields (fields.map fun f => (some f.1, f.2)) =
        fields.map fun f => (some f.1, f.2)) ↔ ∀ f ∈ fields, Exact f.2 := by
    induction fields with
    | nil => simp [plainFields, rereadFields]
    | cons f fields ih =>
      have hf : Exact f.2 ↔ f.2.plain = true ∧ f.2.reread = f.2 :=
        ⟨fun h => ⟨h.plain, h.reread⟩, fun h => ⟨h.1, h.2⟩⟩
      rw [List.forall_mem_cons, ← ih, hf]
      simp [plainFields, rereadFields]
      tauto
  rw [record_eq, ← hfields]
  constructor
  · exact fun h => ⟨h.plain, Doc.object.inj h.reread⟩
  · exact fun h => ⟨h.1, congrArg Doc.object h.2⟩

lemma exact_orNull {α : Type} {write : α → Doc} {x : Option α} (h : ∀ y ∈ x, Exact (write y)) :
    Exact (orNull write x) := by
  cases x with
  | none => exact exact_null
  | some y => exact h y rfl

lemma exact_fieldIfSome {α : Type} {name : String} {write : α → Doc} {x : Option α}
    (h : Exact (orNull write x)) : ∀ key d, (key, d) ∈ fieldIfSome name write x → Exact d := by
  cases x with
  | none => simp [fieldIfSome]
  | some y =>
    have hy : Exact (write y) := h
    simpa [fieldIfSome] using hy

lemma Exact.parse_text {d : Doc} (h : d.Exact) {text : String}
    (htext : text = d.compact ∨ text = d.indented) : parse text = some d := by
  rcases htext with rfl | rfl
  · rw [parse_compact h.plain, h.reread]
  · rw [parse_indented h.plain, h.reread]

/-! ## Room -/

mutual

/-- How many levels the containers of the document nest. -/
def levels : Doc → Nat
  | .array items => levelsOfItems items + 1
  | .object fields => levelsOfFields fields + 1
  | _ => 0

/-- The levels of the deepest item. -/
def levelsOfItems : List Doc → Nat
  | [] => 0
  | d :: ds => max (levels d) (levelsOfItems ds)

/-- The levels of the deepest field. -/
def levelsOfFields : List (Option String × Doc) → Nat
  | [] => 0
  | (_, d) :: rest => max (levels d) (levelsOfFields rest)

end

mutual

/-- A plain document is readable where there is room for its levels. -/
lemma readable_of_levels_le {room : Nat} {d : Doc} (hd : d.plain = true)
    (h : d.levels ≤ room) : d.readable room = true := by
  match d with
  | .null => rfl
  | .bool _ => rfl
  | .number (some _) => rfl
  | .string (some _) => rfl
  | .array items =>
    rw [levels] at h
    rw [readable, readableItems_of_levels_le hd (Nat.le_sub_one_of_lt h), Bool.and_true]
    exact decide_eq_true (by omega)
  | .object fields =>
    rw [levels] at h
    rw [readable, readableFields_of_levels_le hd (Nat.le_sub_one_of_lt h), Bool.and_true]
    exact decide_eq_true (by omega)

lemma readableItems_of_levels_le {room : Nat} {ds : List Doc} (hds : plainItems ds = true)
    (h : levelsOfItems ds ≤ room) : readableItems room ds = true := by
  match ds with
  | [] => rfl
  | d :: ds =>
    obtain ⟨hd, hrest⟩ := Bool.and_eq_true_iff.mp hds
    obtain ⟨hlevels, hlevelsRest⟩ := Nat.max_le.mp h
    rw [readableItems, readable_of_levels_le hd hlevels,
      readableItems_of_levels_le hrest hlevelsRest, Bool.and_true]

lemma readableFields_of_levels_le {room : Nat} {fs : List (Option String × Doc)}
    (hfs : plainFields fs = true) (h : levelsOfFields fs ≤ room) :
    readableFields room fs = true := by
  match fs with
  | [] => rfl
  | (name, d) :: rest =>
    obtain ⟨hname, hplain⟩ := Bool.and_eq_true_iff.mp hfs
    obtain ⟨hd, hrest⟩ := Bool.and_eq_true_iff.mp hplain
    obtain ⟨hlevels, hlevelsRest⟩ := Nat.max_le.mp h
    rw [readableFields, hname, readable_of_levels_le hd hlevels,
      readableFields_of_levels_le hrest hlevelsRest]
    rfl

end

@[simp] theorem levels_text (s : String) : (text s).levels = 0 := rfl

@[simp] theorem levels_int (n : Int) : (int n).levels = 0 := rfl

@[simp] theorem levels_nat (n : Nat) : (nat n).levels = 0 := rfl

@[simp] theorem levels_bool (b : Bool) : (bool b).levels = 0 := rfl

lemma levels_array_le {n : Nat} {ds : List Doc} (h : ∀ d ∈ ds, d.levels ≤ n) :
    (array ds).levels ≤ n + 1 := by
  have hitems : levelsOfItems ds ≤ n := by
    induction ds with
    | nil => exact Nat.zero_le n
    | cons d ds ih =>
      exact Nat.max_le.mpr ⟨h d List.mem_cons_self, ih fun e he => h e (List.mem_cons_of_mem _ he)⟩
  exact Nat.succ_le_succ hitems

lemma levels_record_le {n : Nat} {fields : List (String × Doc)}
    (h : ∀ f ∈ fields, f.2.levels ≤ n) : (record fields).levels ≤ n + 1 := by
  have hfields : levelsOfFields (fields.map fun f => (some f.1, f.2)) ≤ n := by
    induction fields with
    | nil => exact Nat.zero_le n
    | cons f fields ih =>
      exact Nat.max_le.mpr ⟨h f List.mem_cons_self, ih fun g hg => h g (List.mem_cons_of_mem _ hg)⟩
  exact Nat.succ_le_succ hfields

/-- Where an array is readable its container can be entered, and its items are readable there. -/
lemma enter_array {a : Access} {ds : List Doc} (h : readable a.room (.array ds) = true) :
    ∃ inner, a.enter = some inner ∧ inner.held = a.held ∧
      ∀ d ∈ ds, d.readable inner.room = true := by
  have hitems : ∀ {room : Nat} {ds : List Doc}, readableItems room ds = true →
      ∀ d ∈ ds, d.readable room = true := by
    intro room ds hds
    induction ds with
    | nil => simp
    | cons d ds ih =>
      rw [readableItems, Bool.and_eq_true_iff] at hds
      exact List.forall_mem_cons.mpr ⟨hds.1, ih hds.2⟩
  rw [readable, Bool.and_eq_true_iff, decide_eq_true_iff] at h
  exact ⟨{ a with room := a.room - 1 }, if_neg h.1, rfl, hitems h.2⟩

/-- Where a record is readable it can be entered, and its fields are readable there. -/
lemma enter_record {a : Access} {fields : List (String × Doc)}
    (h : readable a.room (record fields) = true) :
    ∃ inner, a.enter = some inner ∧ inner.held = a.held ∧
      ∀ f ∈ fields, f.2.readable inner.room = true := by
  have hfields : ∀ {room : Nat} {fields : List (String × Doc)},
      readableFields room (fields.map fun f => (some f.1, f.2)) = true →
        ∀ f ∈ fields, f.2.readable room = true := by
    intro room fields hfields
    induction fields with
    | nil => simp
    | cons f fields ih =>
      rw [List.map_cons, readableFields, Bool.and_eq_true_iff, Bool.and_eq_true_iff] at hfields
      exact List.forall_mem_cons.mpr ⟨hfields.1.2, ih hfields.2⟩
  rw [record_eq, readable, Bool.and_eq_true_iff, decide_eq_true_iff] at h
  exact ⟨{ a with room := a.room - 1 }, if_neg h.1, rfl, hfields h.2⟩

end Doc

/-! ## Values -/

namespace Value

mutual

/-- The numbers of the value are integers that fit, and its objects have their names in order. -/
def Integral : Value → Prop
  | .number (.int n) => Number.minInt ≤ n ∧ n ≤ Number.maxInt
  | .number (.double _) => False
  | .array items => IntegralItems items
  | .object fields => SortedMap.Ascending fields ∧ IntegralFields fields
  | _ => True

/-- All items are integral. -/
def IntegralItems : List Value → Prop
  | [] => True
  | v :: vs => Integral v ∧ IntegralItems vs

/-- The values of all fields are integral. -/
def IntegralFields : List (String × Value) → Prop
  | [] => True
  | (_, v) :: rest => Integral v ∧ IntegralFields rest

end

end Value

namespace Doc

lemma ofValue_ne_null {v : Value} (h : v ≠ .null) : ofValue v ≠ .null := by
  cases v with
  | null => exact absurd rfl h
  | _ => simp [ofValue]

lemma ofValues_eq (vs : List Value) : ofValues vs = vs.map ofValue := by
  induction vs with
  | nil => rfl
  | cons v vs ih => rw [ofValues, ih, List.map_cons]

lemma ofValue_object (fields : Object) :
    ofValue (.object fields) = record (fields.map fun f => (f.1, ofValue f.2)) := by
  have hfields : ∀ fields : List (String × Value),
      ofFields fields = fields.map fun f => (some f.1, ofValue f.2) := by
    intro fields
    induction fields with
    | nil => rfl
    | cons f fields ih => rw [ofFields, ih, List.map_cons]
  rw [ofValue, hfields, record_eq, List.map_map]
  rfl

mutual

/-- The document of an integral value is exact. -/
lemma exact_ofValue {v : Value} (h : v.Integral) : Exact (ofValue v) := by
  match v with
  | .null => exact exact_null
  | .bool b => exact exact_bool b
  | .number (.int n) => exact exact_int h
  | .string s => exact exact_text s
  | .array items =>
    rw [ofValue, ofValues_eq]
    exact exact_array (List.forall_mem_map.mpr (exact_ofItems h))
  | .object fields =>
    rw [ofValue_object]
    exact exact_record_iff.mpr (List.forall_mem_map.mpr (exact_ofFields h.2))

lemma exact_ofItems {vs : List Value} (h : Value.IntegralItems vs) :
    ∀ v ∈ vs, Exact (ofValue v) := by
  match vs with
  | [] => simp
  | v :: vs => exact List.forall_mem_cons.mpr ⟨exact_ofValue h.1, exact_ofItems h.2⟩

lemma exact_ofFields {fs : List (String × Value)} (h : Value.IntegralFields fs) :
    ∀ f ∈ fs, Exact (ofValue f.2) := by
  match fs with
  | [] => simp
  | (_, v) :: rest => exact List.forall_mem_cons.mpr ⟨exact_ofValue h.1, exact_ofFields h.2⟩

end

mutual

/-- The document of an integral value has that value. -/
lemma value?_ofValue {room : Nat} {v : Value} (h : v.Integral)
    (hroom : (ofValue v).readable room = true) : (ofValue v).value? room = some v := by
  match v with
  | .null => rfl
  | .bool _ => rfl
  | .number _ => rfl
  | .string _ => rfl
  | .array items =>
    simp only [ofValue, readable, Bool.and_eq_true_iff, decide_eq_true_iff] at hroom
    rw [ofValue, value?, if_neg hroom.1, values?_ofValues h hroom.2]
    rfl
  | .object fields =>
    simp only [ofValue, readable, Bool.and_eq_true_iff, decide_eq_true_iff] at hroom
    rw [ofValue, value?, if_neg hroom.1, fields?_ofFields h.2 hroom.2]
    exact congrArg (some ∘ Value.object) (SortedMap.ofEntries_of_perm h.1 (.refl _))

lemma values?_ofValues {room : Nat} {vs : List Value} (h : Value.IntegralItems vs)
    (hroom : readableItems room (ofValues vs) = true) : values? room (ofValues vs) = some vs := by
  match vs with
  | [] => rfl
  | v :: vs =>
    rw [ofValues, readableItems, Bool.and_eq_true_iff] at hroom
    rw [ofValues, values?, value?_ofValue h.1 hroom.1, Option.bind_some,
      values?_ofValues h.2 hroom.2]
    rfl

lemma fields?_ofFields {room : Nat} {fs : List (String × Value)} (h : Value.IntegralFields fs)
    (hroom : readableFields room (ofFields fs) = true) {sofar : Object} :
    fields? room sofar (ofFields fs) =
      some (fs.foldl (fun m (name, v) => SortedMap.insert m name v) sofar) := by
  match fs with
  | [] => rfl
  | (name, v) :: rest =>
    rw [ofFields, readableFields, Bool.and_eq_true_iff, Bool.and_eq_true_iff] at hroom
    rw [ofFields, fields?, Option.bind_some, value?_ofValue h.1 hroom.1.2, Option.bind_some,
      fields?_ofFields h.2 hroom.2]
    rfl

end

end Doc
end Json
end Changefeed

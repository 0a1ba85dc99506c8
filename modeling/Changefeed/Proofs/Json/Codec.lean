import Changefeed.Proofs.Json.Exact

/-!
# Laws of decoders

A decoder reads a value from a document when the document is exact and gives that value wherever
there is room for it, inside of something held or not.  Lists, maps and records are read when their
parts are.  A record is taken apart into its fields, and each field is found under its name.
-/

namespace Changefeed
namespace Json

/-- The decoder gives the value for the document. -/
structure Reads {α : Type} (decode : Decoder α) (d : Doc) (x : α) : Prop where
  exact : d.Exact
  decode_eq : ∀ a : Access, d.readable a.room = true → decode a d = some x

/-- The value is read from both texts of the document, by every reader that has room for the levels
of the document. -/
def ReadsBack {α : Type} (decode : Decoder α) (d : Doc) (x : α) : Prop :=
  ∀ room, d.levels ≤ room → ∀ text, text = d.compact ∨ text = d.indented →
    (Doc.parse text).bind (decode { room }) = some x

lemma Reads.readsBack {α : Type} {decode : Decoder α} {d : Doc} {x : α} (h : Reads decode d x) :
    ReadsBack decode d x := by
  intro room hroom text htext
  rw [h.exact.parse_text htext, Option.bind_some]
  exact h.decode_eq _ (Doc.readable_of_levels_le h.exact.plain hroom)

namespace Decoder

lemma reads_bool (b : Bool) : Reads bool (.bool b) b := ⟨Doc.exact_bool b, fun _ _ => rfl⟩

lemma reads_string (s : String) : Reads string (.text s) s := ⟨Doc.exact_text s, fun _ _ => rfl⟩

lemma reads_parsed {ε α : Type} {parse : String → Except ε α} {s : String} {x : α}
    (h : parse s = .ok x) : Reads (parsed parse) (.text s) x :=
  ⟨Doc.exact_text s, fun _ _ => congrArg Except.toOption h⟩

lemma reads_intWithin {least greatest n : Int} (hleast : Number.minInt ≤ least)
    (hgreatest : greatest ≤ Number.maxInt) (hn : least ≤ n ∧ n ≤ greatest) :
    Reads (intWithin least greatest) (.int n) n :=
  ⟨Doc.exact_int ⟨Int.le_trans hleast hn.1, Int.le_trans hn.2 hgreatest⟩,
    fun _ _ => if_pos hn⟩

lemma reads_int64 {n : Int} (hn : -0x8000000000000000 ≤ n ∧ n ≤ 0x7FFFFFFFFFFFFFFF) :
    Reads int64 (.int n) n :=
  reads_intWithin (by decide) (by decide) hn

lemma reads_natUpTo {greatest n : Nat} (hgreatest : greatest < 2 ^ 64) (hn : n ≤ greatest) :
    Reads (natUpTo greatest) (.nat n) n := by
  have hread : Reads (intWithin 0 greatest) (.nat n) n :=
    reads_intWithin (by decide) (by simp only [Number.maxInt]; omega) (by omega)
  refine ⟨hread.exact, fun a ha => ?_⟩
  rw [natUpTo, hread.decode_eq a ha]
  rfl

lemma reads_word32 (n : UInt32) : Reads word32 (.nat n.toNat) n := by
  have hread : Reads (natUpTo 0xFFFFFFFF) (.nat n.toNat) n.toNat :=
    reads_natUpTo (by decide) (Nat.le_of_lt_succ n.toNat_lt)
  refine ⟨hread.exact, fun a ha => ?_⟩
  rw [word32, hread.decode_eq a ha, Option.map_some, UInt32.ofNat_toNat]

lemma reads_word64 (n : UInt64) : Reads word64 (.nat n.toNat) n := by
  have hread : Reads size (.nat n.toNat) n.toNat :=
    reads_natUpTo (by decide) (Nat.le_of_lt_succ n.toNat_lt)
  refine ⟨hread.exact, fun a ha => ?_⟩
  rw [word64, hread.decode_eq a ha, Option.map_some, UInt64.ofNat_toNat]

lemma reads_byte (n : UInt8) : Reads byte (.nat n.toNat) n := by
  have hread : Reads (natUpTo 255) (.nat n.toNat) n.toNat :=
    reads_natUpTo (by decide) (Nat.le_of_lt_succ n.toNat_lt)
  refine ⟨hread.exact, fun a ha => ?_⟩
  rw [byte, hread.decode_eq a ha, Option.map_some, UInt8.ofNat_toNat]

lemma reads_anyValue {v : Value} (h : v.Integral) : Reads anyValue (Doc.ofValue v) v :=
  ⟨Doc.exact_ofValue h, fun _ ha => Doc.value?_ofValue h ha⟩

/-- What may be absent is read, when nothing that is there is written as null. -/
lemma reads_orNull {α : Type} {decode : Decoder α} {write : α → Doc} {x : Option α}
    (h : ∀ y ∈ x, Reads decode (write y) y) (hnull : ∀ y ∈ x, write y ≠ .null) :
    Reads (orNull decode) (Doc.orNull write x) x := by
  refine ⟨Doc.exact_orNull fun y hy => (h y hy).exact, fun a ha => ?_⟩
  cases x with
  | none => rfl
  | some y =>
    have hy : decode a (write y) = some y := (h y rfl).decode_eq a ha
    rw [Doc.orNull, orNull, hy]
    · rfl
    · exact hnull y rfl

/-- A list is read when its items are. -/
lemma reads_list {α : Type} {decode : Decoder α} {write : α → Doc} {xs : List α}
    (h : ∀ x ∈ xs, Reads decode (write x) x) : Reads (list decode) (.array (xs.map write)) xs := by
  refine ⟨Doc.exact_array (List.forall_mem_map.mpr fun x hx => (h x hx).exact), fun a ha => ?_⟩
  obtain ⟨inner, hinner, -, hroom⟩ := Doc.enter_array ha
  rw [list, hinner, Option.bind_some]
  clear ha hinner
  induction xs with
  | nil => rfl
  | cons x xs ih =>
    rw [List.map_cons, List.mapM_cons,
      (h x List.mem_cons_self).decode_eq inner (hroom _ List.mem_cons_self),
      ih (fun y hy => h y (List.mem_cons_of_mem _ hy))
        (fun d hd => hroom d (List.mem_cons_of_mem _ hd))]
    rfl

/-- A map is read from its entries in any order, when its keys and its values are. -/
lemma reads_map {ε κ α : Type} [Ord κ] [Std.TransOrd κ] [Std.LawfulEqOrd κ]
    {key : String → Except ε κ} {name : κ → String} {decode : Decoder α} {write : α → Doc}
    {m : SortedMap κ α} (hm : SortedMap.Ascending m) {entries : List (κ × α)}
    (hperm : entries.Perm m) (hkey : ∀ e ∈ m, key (name e.1) = .ok e.1)
    (h : ∀ e ∈ m, Reads decode (write e.2) e.2) :
    Reads (map key decode) (Doc.record (entries.map fun (k, v) => (name k, write v))) m := by
  refine ⟨Doc.exact_record_iff.mpr (List.forall_mem_map.mpr fun e he =>
    (h e (hperm.subset he)).exact), fun a ha => ?_⟩
  obtain ⟨inner, hinner, -, hroom⟩ := Doc.enter_record ha
  have hread : (entries.map fun (k, v) => (name k, write v)).mapM (m := Option)
      (fun f => (key f.1).toOption.bind fun k => (decode inner f.2).map fun v => (k, v)) =
        some entries := by
    have hall : ∀ e ∈ entries, key (name e.1) = .ok e.1 ∧ decode inner (write e.2) = some e.2 :=
      fun e he => ⟨hkey e (hperm.subset he),
        (h e (hperm.subset he)).decode_eq inner (hroom _ (List.mem_map_of_mem he))⟩
    clear ha hinner hroom hperm
    induction entries with
    | nil => rfl
    | cons e entries ih =>
      obtain ⟨hname, hvalue⟩ := hall e List.mem_cons_self
      rw [List.map_cons, List.mapM_cons, ih fun f hf => hall f (List.mem_cons_of_mem _ hf)]
      simp [hname, hvalue, Except.toOption]
  rw [Doc.record_eq, map, hinner, Option.bind_some, List.mapM_map]
  exact (congrArg (Option.map SortedMap.ofEntries) hread).trans
    (congrArg some (SortedMap.ofEntries_of_perm hm hperm))

end Decoder

/-! ## Records -/

namespace Parts

/-- The parts are the fields of an object, with room for each of them. -/
structure Of (fields : List (String × Doc)) (p : Parts) : Prop where
  given : p.given = fields
  room : ∀ f ∈ fields, f.2.readable p.access.room = true

section

variable {fields : List (String × Doc)}

/-- No field is repeated when the names are distinct. -/
lemma repeats_of_nodup (names : List String) (h : (fields.map Prod.fst).Nodup) :
    repeats names (fields.map fun f => (some f.1, f.2)) = false := by
  induction fields with
  | nil => rfl
  | cons f fields ih =>
    obtain ⟨hfresh, hrest⟩ := List.nodup_cons.mp h
    have hother : (fields.map fun f => (some f.1, f.2)).any (fun g => g.1 = some f.1) = false := by
      rw [List.any_eq_false]
      intro g hg
      obtain ⟨e, he, rfl⟩ := List.mem_map.mp hg
      simpa using fun heq : e.1 = f.1 => hfresh (heq ▸ List.mem_map_of_mem he)
    rw [List.map_cons, repeats, hother, Bool.and_false, Bool.false_or, ih hrest]

/-- A record with distinct names is taken apart into its fields. -/
lemma read_record (names : List String) (h : (fields.map Prod.fst).Nodup) {a : Access}
    (ha : (Doc.record fields).readable a.room = true) :
    ∃ p, read names a (Doc.record fields) = some p ∧ p.Of fields := by
  obtain ⟨inner, hinner, -, hroom⟩ := Doc.enter_record ha
  refine ⟨⟨inner, false, fields⟩, ?_, rfl, hroom⟩
  have hnames : (fields.map fun f => (some f.1, f.2)).all (fun f => f.1.isSome) = true := by simp
  have hgiven : (fields.map fun f => (some f.1, f.2)).filterMap
      (fun f => f.1.map fun n => (n, f.2)) = fields := by
    rw [List.filterMap_map]
    exact List.filterMap_some
  rw [read, hinner, Option.bind_some, Doc.record_eq]
  simp only [hnames, repeats_of_nodup names h, hgiven]
  rfl

variable {α : Type} {p : Parts} (hp : p.Of fields) (name : String) {d : Doc}
  (hfind : fields.find? (fun f => f.1 = name) = some (name, d))

include hp hfind

/-- What a record holds under a name is found, and there is room for it. -/
lemma Of.find? : p.find? name = some d ∧ d.readable p.access.room = true := by
  refine ⟨?_, hp.room _ (List.mem_of_find?_eq_some hfind)⟩
  rw [Parts.find?, hp.given, hfind]
  rfl

/-- A field that has to be there is read. -/
lemma Of.required {decode : Decoder α} {x : α} (h : Reads decode d x) :
    p.required name decode = some x := by
  obtain ⟨hfound, hroom⟩ := hp.find? name hfind
  rw [Parts.required, hfound]
  exact h.decode_eq _ hroom

/-- A field that may be null is read when it is there. -/
lemma Of.nullable {decode : Decoder α} {x : Option α} (h : Reads decode.orNull d x) :
    p.nullable name decode = some x := by
  obtain ⟨hfound, hroom⟩ := hp.find? name hfind
  simp only [Parts.nullable, hfound]
  exact h.decode_eq _ hroom

/-- A field that may be missing is read when it is there. -/
lemma Of.optional {decode : Decoder α} {x : Option α} (h : Reads decode.orNull d x) :
    p.optional name decode = some x := by
  obtain ⟨hfound, hroom⟩ := hp.find? name hfind
  simp only [Parts.optional, hfound]
  exact h.decode_eq _ hroom

/-- A field with a default is read when it is there. -/
lemma Of.defaulted {decode : Decoder α} {x default : α} (h : Reads decode d x) :
    p.defaulted name decode default = some x := by
  obtain ⟨hfound, hroom⟩ := hp.find? name hfind
  simp only [Parts.defaulted, hfound]
  exact h.decode_eq _ hroom

omit hfind in
/-- A field that is left out when its value is absent is read as that value. -/
lemma Of.optional_ifSome {decode : Decoder α} {write : α → Doc} {x : Option α}
    (hfind : fields.find? (fun f => f.1 = name) = x.map fun y => (name, write y))
    (h : Reads decode.orNull (.orNull write x) x) : p.optional name decode = some x := by
  cases x with
  | some y => exact hp.optional name hfind h
  | none =>
    have hmissing : p.find? name = none := by
      rw [Parts.find?, hp.given, hfind]
      rfl
    simp only [Parts.optional, hmissing]

end

end Parts

section

variable {α : Type} {decode : Decoder α} {fields : List (String × Doc)} {x : α}

/-- A record is read when its fields are. -/
lemma Reads.record {names : List String} {build : Parts → Option α}
    (hdecode : ∀ a d, decode a d = (Parts.read names a d).bind build)
    (hdistinct : (fields.map Prod.fst).Nodup) (hexact : ∀ f ∈ fields, f.2.Exact)
    (hbuild : ∀ p : Parts, p.Of fields → build p = some x) : Reads decode (.record fields) x := by
  refine ⟨Doc.exact_record_iff.mpr hexact, fun a ha => ?_⟩
  obtain ⟨p, hread, hp⟩ := Parts.read_record names hdistinct ha
  rw [hdecode, hread, Option.bind_some, hbuild p hp]

/-- A tagged record is split into its variant and the record of its other fields. -/
lemma Tagged.read_record {tag word : String} {variants : List String} {v : Nat}
    (htag : tag ∉ fields.map Prod.fst) (hword : variants.findIdx? (· = word) = some v) {a : Access}
    (ha : (Doc.record ((tag, .text word) :: fields)).readable a.room = true) :
    Tagged.read tag variants a (Doc.record ((tag, .text word) :: fields)) =
      some ⟨v, { a with held := true }, Doc.record fields⟩ := by
  have hother : ∀ f ∈ fields.map fun f => (some f.1, f.2), f.1 ≠ some tag := by
    intro f hf heq
    obtain ⟨e, he, rfl⟩ := List.mem_map.mp hf
    exact htag (Option.some.inj heq ▸ List.mem_map_of_mem he)
  have htags : (fields.map fun f => (some f.1, f.2)).filter (fun f => f.1 = some tag) = [] :=
    List.filter_eq_nil_iff.mpr fun f hf => by simpa using hother f hf
  have hrest : (fields.map fun f => (some f.1, f.2)).filter (fun f => f.1 ≠ some tag) =
      fields.map fun f => (some f.1, f.2) :=
    List.filter_eq_self.mpr fun f hf => by simpa using hother f hf
  unfold Tagged.read
  rw [if_pos ha, Doc.record_eq, List.map_cons]
  dsimp only
  rw [List.filter_cons_of_pos (by simp), htags, List.filter_cons_of_neg (by simp), hrest]
  simp [Tagged.variantOf, Doc.text, hword, Doc.record_eq]

lemma Doc.readable_untagged {tag : String × Doc} {a : Access}
    (ha : (Doc.record (tag :: fields)).readable a.room = true) :
    (Doc.record fields).readable a.room = true := by
  simp only [Doc.record, Doc.readable, List.map_cons, Doc.readableFields,
    Bool.and_eq_true_iff] at ha ⊢
  exact ⟨ha.1, ha.2.2⟩

/-- A tagged record is read when the record of its other fields is. -/
lemma Reads.tagged {tag word : String} {variants : List String} {v : Nat}
    {build : Tagged → Option α}
    (hdecode : ∀ a d, decode a d = (Tagged.read tag variants a d).bind build)
    (hword : variants.findIdx? (· = word) = some v) (htag : tag ∉ fields.map Prod.fst)
    (hexact : (Doc.record fields).Exact)
    (hbuild : ∀ a : Access, (Doc.record fields).readable a.room = true →
      build ⟨v, a, .record fields⟩ = some x) :
    Reads decode (.record ((tag, .text word) :: fields)) x := by
  refine ⟨Doc.exact_record_iff.mpr (List.forall_mem_cons.mpr
    ⟨Doc.exact_text word, Doc.exact_record_iff.mp hexact⟩), fun a ha => ?_⟩
  rw [hdecode, Tagged.read_record htag hword ha, Option.bind_some]
  exact hbuild { a with held := true } (Doc.readable_untagged ha)

end

end Json
end Changefeed

import SmallLisp.Proofs.Procedures

/-!
Values that are data: what the reader gives, up to the marks of lists.

`Value.datum?` forgets the marks; a value that is made from a datum is that datum again
(`Value.datum?_intern`), and a value that is a datum holds no procedures.  `Datum.marks` counts the
marks that are taken to make it.
-/

namespace SmallLisp

mutual

/-- How many marks a datum takes. -/
def Datum.marks : Datum → Nat
  | .number _ => 0
  | .symbol _ => 0
  | .list items => Datum.marksAll items + 1

def Datum.marksAll : List Datum → Nat
  | [] => 0
  | d :: rest => d.marks + Datum.marksAll rest

end

mutual

theorem Datum.intern_snd : ∀ (d : Datum) (next : Mark), (d.intern next).2 = next + d.marks
  | .number _, _ => rfl
  | .symbol _, _ => rfl
  | .list items, next => by
    have h := Datum.internAll_snd items (next + 1)
    simp only [Datum.intern, Datum.marks, h]
    rw [Nat.add_assoc, Nat.add_comm 1]

theorem Datum.internAll_snd : ∀ (ds : List Datum) (next : Mark),
    (Datum.internAll next ds).2 = next + Datum.marksAll ds
  | [], _ => rfl
  | d :: ds, next => by
    have h := Datum.intern_snd d next
    have h' := Datum.internAll_snd ds (d.intern next).2
    simp only [Datum.internAll, Datum.marksAll]
    rw [h', h, Nat.add_assoc]

end

theorem Datum.internAll_cons (next : Mark) (d : Datum) (ds : List Datum) :
    (Datum.internAll next (d :: ds)).1 =
      (d.intern next).1 :: (Datum.internAll (next + d.marks) ds).1 := by
  simp only [Datum.internAll, Datum.intern_snd]

namespace Value

mutual

/-- The datum that a value is, if it is one. -/
def datum? : Value → Option Datum
  | .number (.float (.float x)) => some (.number x)
  | .symbol name => some (.symbol name)
  | .list _ items => (data? items).map .list
  | _ => none

def data? : List Value → Option (List Datum)
  | [] => some []
  | v :: rest => do return (← datum? v) :: (← data? rest)

end

theorem data?_cons {v : Value} {vs : List Value} {ds : List Datum} :
    data? (v :: vs) = some ds ↔
      ∃ d ds', v.datum? = some d ∧ data? vs = some ds' ∧ ds = d :: ds' := by
  simp only [data?, Option.bind_eq_bind, Option.bind_eq_some_iff, Option.pure_def,
    Option.some.injEq]
  constructor
  · rintro ⟨d, hd, ds', hds', rfl⟩
    exact ⟨d, ds', hd, hds', rfl⟩
  · rintro ⟨d, ds', hd, hds', rfl⟩
    exact ⟨d, hd, ds', hds', rfl⟩

theorem data?_eq_nil {vs : List Value} (h : data? vs = some []) : vs = [] := by
  cases vs with
  | nil => rfl
  | cons v vs =>
    obtain ⟨d, ds, -, -, hnil⟩ := data?_cons.1 h
    cases hnil

/-- The values that are a datum and other data. -/
theorem data?_eq_cons {vs : List Value} {d : Datum} {ds : List Datum}
    (h : data? vs = some (d :: ds)) :
    ∃ v vs', vs = v :: vs' ∧ v.datum? = some d ∧ data? vs' = some ds := by
  cases vs with
  | nil => cases h
  | cons v vs =>
    obtain ⟨d', ds', hd, hds, heq⟩ := data?_cons.1 h
    cases heq
    exact ⟨v, vs, rfl, hd, hds⟩

theorem datum?_eq_number {v : Value} {x : Float} (h : v.datum? = some (.number x)) :
    v = .number (.float (.float x)) := by
  unfold datum? at h
  split at h <;> simp_all

theorem datum?_eq_symbol {v : Value} {name : String} (h : v.datum? = some (.symbol name)) :
    v = .symbol name := by
  unfold datum? at h
  split at h <;> simp_all

theorem datum?_eq_list {v : Value} {ds : List Datum} (h : v.datum? = some (.list ds)) :
    ∃ mark items, v = .list mark items ∧ data? items = some ds := by
  unfold datum? at h
  split at h
  case h_3 mark items =>
    obtain ⟨ds', hds, heq⟩ := Option.map_eq_some_iff.1 h
    cases heq
    exact ⟨mark, items, rfl, hds⟩
  all_goals cases h

theorem exists_of_mem_data? {vs : List Value} {ds : List Datum} (h : data? vs = some ds) {v : Value}
    (hv : v ∈ vs) : ∃ d ∈ ds, v.datum? = some d := by
  induction vs generalizing ds with
  | nil => cases hv
  | cons w vs ih =>
    obtain ⟨d, ds', hd, hds, rfl⟩ := data?_cons.1 h
    rcases List.mem_cons.1 hv with rfl | hv
    · exact ⟨d, by simp, hd⟩
    · obtain ⟨d', hd', hv'⟩ := ih hds hv
      exact ⟨d', by simp [hd'], hv'⟩

mutual

theorem datum?_intern : ∀ (d : Datum) (next : Mark), (d.intern next).1.datum? = some d
  | .number _, _ => rfl
  | .symbol _, _ => rfl
  | .list items, next => by
    have h := data?_internAll items (next + 1)
    simp only [Datum.intern, datum?]
    rw [h]
    rfl

theorem data?_internAll : ∀ (ds : List Datum) (next : Mark),
    data? (Datum.internAll next ds).1 = some ds
  | [], _ => rfl
  | d :: ds, next => by
    rw [Datum.internAll, data?_cons]
    exact ⟨d, ds, datum?_intern d next, data?_internAll ds _, rfl⟩

end

mutual

theorem procedures_of_datum? {p : Value → Prop} :
    ∀ {v : Value} {d : Datum}, v.datum? = some d → v.Procedures p
  | .list _ items, _, h => by
    obtain ⟨ds, hds, -⟩ := Option.map_eq_some_iff.1 h
    exact proceduresAll_of_data? hds
  | .number _, _, _ | .symbol _, _, _ => trivial

theorem proceduresAll_of_data? {p : Value → Prop} :
    ∀ {vs : List Value} {ds : List Datum}, data? vs = some ds → ProceduresAll p vs
  | [], _, _ => trivial
  | _ :: _, _, h => by
    obtain ⟨d, ds', hd, hds', -⟩ := data?_cons.1 h
    exact ⟨procedures_of_datum? hd, proceduresAll_of_data? hds'⟩

end

end Value

end SmallLisp

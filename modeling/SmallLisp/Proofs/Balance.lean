import Mathlib.Data.List.Infix
import SmallLisp.Proofs.Grammar

/-!
Reader faults by counting parentheses.

The depth of tokens is the number of opening parentheses less that of closing ones.  What the grammar
derives has depth 0 and no prefix of negative depth (`Grammar.DerivesAll.depth_eq`,
`Grammar.DerivesAll.depth_prefix`), and tokens of lists that are still open have as much depth as there
are such lists (`Grammar.Opens.depth_eq`).  Where the reader stops is told in these two notions
(`Grammar.StopsAt`, `Grammar.Stops`), so the fault that it stops with can be read off the depths of
prefixes, without following the reader:

    some prefix has a negative depth                        unmatched close
    no prefix has, and the whole has a positive one         unexpected end of input
                                                            (reads_by_depth)
-/

namespace SmallLisp

namespace Grammar

open Reader Datum

/-! ## Depth -/

/-- By how many lists more are opened than closed. -/
def depth (ts : List String) : Int := (ts.count Token.opening : Int) - ts.count Token.closing

@[simp] theorem depth_nil : depth [] = 0 := rfl

@[simp] theorem depth_append (us vs : List String) : depth (us ++ vs) = depth us + depth vs := by
  unfold depth
  rw [List.count_append, List.count_append]
  omega

theorem depth_cons (token : String) (ts : List String) :
    depth (token :: ts) = depth [token] + depth ts :=
  depth_append [token] ts

@[simp] theorem depth_open : depth [Token.opening] = 1 := by decide

@[simp] theorem depth_close : depth [Token.closing] = -1 := by decide

theorem depth_atom {token : String} (hopen : token ≠ Token.opening) (hclose : token ≠ Token.closing) :
    depth [token] = 0 := by
  unfold depth
  rw [List.count_singleton, List.count_singleton]
  simp [hopen, hclose]

/-- No prefix closes more lists than it opens. -/
def Nonneg (ts : List String) : Prop := ∀ us, us <+: ts → 0 ≤ depth us

/-- As far as each closing parenthesis closes a list, lists are nested up to the limit. -/
def Within (limit : Nat) (ts : List String) : Prop :=
  ∀ us, us <+: ts → Nonneg us → depth us ≤ limit

instance (ts : List String) : Decidable (Nonneg ts) :=
  decidable_of_iff (∀ us ∈ ts.inits, 0 ≤ depth us) (by simp [Nonneg])

instance (limit : Nat) (ts : List String) : Decidable (Within limit ts) :=
  decidable_of_iff (∀ us ∈ ts.inits, Nonneg us → depth us ≤ limit) (by simp [Within])

section Prefixes

variable {P : Int → Prop} {us vs : List String}

theorem forall_prefix_append (hus : ∀ ws, ws <+: us → P (depth ws))
    (hvs : ∀ ws, ws <+: vs → P (depth us + depth ws)) : ∀ ws, ws <+: us ++ vs → P (depth ws) := by
  intro ws hws
  rcases List.prefix_or_prefix_of_prefix hws (List.prefix_append us vs) with h | ⟨xs, rfl⟩
  · exact hus ws h
  · rw [depth_append]
    exact hvs xs ((List.prefix_append_right_inj us).1 hws)

theorem forall_prefix_cons {token : String} (hnil : P 0)
    (h : ∀ ws, ws <+: vs → P (depth [token] + depth ws)) :
    ∀ ws, ws <+: token :: vs → P (depth ws) := by
  intro ws hws
  rcases List.prefix_cons_iff.1 hws with rfl | ⟨xs, rfl, hxs⟩
  · exact hnil
  · rw [depth_cons]
    exact h xs hxs

end Prefixes

/-! ## Depth of what is derived -/

mutual

theorem Derives.depth_eq : ∀ {u : List String} {d : Datum}, Derives u d → depth u = 0
  | _, _, .atom hopen hclose => depth_atom hopen hclose
  | _, _, .list hds => by
    rw [depth_cons, depth_append, hds.depth_eq, depth_open, depth_close]
    rfl

theorem DerivesAll.depth_eq : ∀ {us : List String} {ds : List Datum}, DerivesAll us ds → depth us = 0
  | _, _, .nil => rfl
  | _, _, .cons hd hds => by
    rw [depth_append, hd.depth_eq, hds.depth_eq]
    rfl

end

mutual

/-- The depth goes up to the nesting of the datum, and not below 0. -/
theorem Derives.depth_prefix : ∀ {u : List String} {d : Datum}, Derives u d →
    ∀ ws, ws <+: u → 0 ≤ depth ws ∧ depth ws ≤ d.nesting
  | _, _, @Derives.atom token hopen hclose => by
    refine forall_prefix_cons (P := fun k => 0 ≤ k ∧ k ≤ (atom token).nesting) (by simp) ?_
    intro ws hws
    rw [List.prefix_nil.1 hws, depth_atom hopen hclose]
    simp
  | _, .list ds, .list hds => by
    have hall := hds.depth_prefix
    have hclosed := hds.depth_eq
    refine forall_prefix_cons (P := fun k => 0 ≤ k ∧ k ≤ (Datum.list ds).nesting) ?_ ?_
    · simp only [nesting]
      omega
    · refine forall_prefix_append (P := fun k => 0 ≤ depth [Token.opening] + k ∧
        depth [Token.opening] + k ≤ (Datum.list ds).nesting) (fun ws hws => ?_) fun ws hws => ?_
      · have := hall ws hws
        simp only [depth_open, nesting]
        omega
      · have hws : depth ws = 0 ∨ depth ws = -1 := by
          rcases List.prefix_cons_iff.1 hws with rfl | ⟨xs, rfl, hxs⟩
          · exact Or.inl rfl
          · rw [List.prefix_nil.1 hxs]
            exact Or.inr depth_close
        simp only [depth_open, nesting]
        omega

theorem DerivesAll.depth_prefix : ∀ {us : List String} {ds : List Datum}, DerivesAll us ds →
    ∀ ws, ws <+: us → 0 ≤ depth ws ∧ depth ws ≤ nestingAll ds
  | _, _, .nil, ws, hws => by
    rw [List.prefix_nil.1 hws]
    exact ⟨Int.le_refl 0, Int.le_refl 0⟩
  | _, d :: ds, .cons hd hds, ws, hws => by
    refine forall_prefix_append (P := fun k => 0 ≤ k ∧ k ≤ (nestingAll (d :: ds) : Nat))
      (fun ws hws => ?_) (fun ws hws => ?_) ws hws
    · have := hd.depth_prefix ws hws
      simp only [nestingAll]
      omega
    · have := hds.depth_prefix ws hws
      rw [hd.depth_eq]
      simp only [nestingAll]
      omega

end

theorem DerivesAll.nonneg {us : List String} {ds : List Datum} (h : DerivesAll us ds) : Nonneg us :=
  fun ws hws => (h.depth_prefix ws hws).1

/-- There are as many lists open as the depth says. -/
theorem Opens.depth_eq {limit : Nat} {us : List String} {pending : List (List Datum)}
    (h : Opens limit us pending) : depth us = pending.length := by
  induction h with
  | nil => rfl
  | cons _ hvs _ ih =>
    rw [depth_append, ih, depth_cons, hvs.depth_eq, depth_open, List.length_cons]
    omega

/-- A list that was opened first is open throughout. -/
theorem Opens.depth_prefix {limit : Nat} {us : List String} {pending : List (List Datum)}
    (h : Opens limit us pending) :
    ∀ ws, ws <+: us → (ws ≠ [] → 0 < depth ws) ∧ 0 ≤ depth ws ∧ depth ws ≤ limit := by
  induction h with
  | nil =>
    intro ws hws
    rw [List.prefix_nil.1 hws]
    simp
  | @cons us vs items outer hus hvs hn ih =>
    intro ws hws
    have hall := hvs.depth_prefix
    simp only [nesting] at hn
    have hdepth : depth us = outer.length := hus.depth_eq
    rcases List.prefix_or_prefix_of_prefix hws (List.prefix_append us _) with h | ⟨xs, rfl⟩
    · exact ih ws h
    · have hxs := (List.prefix_append_right_inj us).1 hws
      rcases List.prefix_cons_iff.1 hxs with rfl | ⟨ys, rfl, hys⟩
      · rw [List.append_nil]
        exact ih us (List.prefix_refl us)
      · have := hall ys hys
        rw [depth_append, depth_cons, depth_open, hdepth]
        omega

theorem Opens.eq_nil {limit : Nat} {us : List String} (h : Opens limit us []) : us = [] := by
  cases h
  rfl

/-! ## Where the reader stops -/

theorem step_eq_fail {limit : Nat} {pending : List (List Datum)} {token : String} {f : ReadFault}
    (h : step limit pending token = .fail f) :
    f = .unmatchedClose ∧ token = Token.closing ∧ pending = [] ∨
      f = .tooDeep ∧ token = Token.opening ∧ limit ≤ pending.length := by
  have hplace : ∀ d pending, place d pending ≠ .fail f := by
    rintro d (_ | _) <;> exact nofun
  by_cases hopen : token = Token.opening
  · subst hopen
    by_cases hlt : pending.length < limit
    · rw [step_open hlt] at h
      cases h
    · rw [step_open_deep hlt] at h
      cases h
      exact Or.inr ⟨rfl, rfl, Nat.le_of_not_lt hlt⟩
  · by_cases hclose : token = Token.closing
    · subst hclose
      cases pending with
      | nil =>
        cases h
        exact Or.inl ⟨rfl, rfl, rfl⟩
      | cons items outer =>
        rw [step_close] at h
        exact absurd h (hplace _ outer)
    · rw [step_atom limit pending hopen hclose] at h
      exact absurd h (hplace _ pending)

/-- Where reading one expression stops, and what it has read by then: the expression, lists that are
still open, or nothing. -/
inductive StopsAt (limit : Nat) (ts : List String) : Except ReadFault Datum → List String → Prop
  | read {u rest : List String} {d : Datum} : ts = u ++ rest → Derives u d → d.nesting ≤ limit →
      StopsAt limit ts (.ok d) rest
  | unclosed {pending : List (List Datum)} : Opens limit ts pending →
      StopsAt limit ts (.error .unexpectedEnd) []
  | unopened {rest : List String} : ts = Token.closing :: rest →
      StopsAt limit ts (.error .unmatchedClose) rest
  | deep {us rest : List String} {pending : List (List Datum)} : ts = us ++ Token.opening :: rest →
      Opens limit us pending → limit ≤ pending.length → StopsAt limit ts (.error .tooDeep) rest

theorem Opens.stops_of_readOne {limit : Nat} {us ts rest : List String}
    {pending : List (List Datum)} {f : ReadFault} (h : Opens limit us pending)
    (hread : readOne limit pending ts = (.error f, rest)) :
    StopsAt limit (us ++ ts) (.error f) rest := by
  induction ts generalizing us pending with
  | nil =>
    cases hread
    rw [List.append_nil]
    exact .unclosed h
  | cons token ts ih =>
    have hstep := h.step token
    rw [readOne_cons] at hread
    cases hp : Reader.step limit pending token with
    | more pending' =>
      rw [hp] at hread hstep
      have hrest := ih hstep hread
      rwa [List.append_assoc] at hrest
    | done d =>
      rw [hp] at hread
      cases hread
    | fail f' =>
      rw [hp] at hread
      cases hread
      rcases step_eq_fail hp with ⟨rfl, rfl, rfl⟩ | ⟨rfl, rfl, hdeep⟩
      · rw [h.eq_nil]
        exact .unopened rfl
      · exact .deep rfl h hdeep

theorem stopsAt_readOne (limit : Nat) (ts : List String) :
    StopsAt limit ts (readOne limit [] ts).1 (readOne limit [] ts).2 := by
  rcases hread : readOne limit [] ts with ⟨_ | _, rest⟩
  · exact Opens.nil.stops_of_readOne hread
  · obtain ⟨u, hts, hu, hn⟩ := readOne_eq_ok_iff.1 hread
    exact .read hts hu hn

/-- Where reading to the end stops: the data are those of the tokens `us`, and after these there is
nothing, a list that is not closed, a parenthesis that closes no list, or a list nested too deep. -/
inductive Stops (limit : Nat) (ts us : List String) : Option ReadFault → Prop
  | finished : ts = us → Stops limit ts us none
  | unclosed {vs : List String} {pending : List (List Datum)} : ts = us ++ vs → Opens limit vs pending →
      vs ≠ [] → Stops limit ts us (some .unexpectedEnd)
  | unopened {rest : List String} : ts = us ++ Token.closing :: rest →
      Stops limit ts us (some .unmatchedClose)
  | deep {vs rest : List String} {pending : List (List Datum)} :
      ts = us ++ (vs ++ Token.opening :: rest) → Opens limit vs pending → limit ≤ pending.length →
      Stops limit ts us (some .tooDeep)

theorem Stops.append {limit : Nat} {u ts us : List String} {fault : Option ReadFault}
    (h : Stops limit ts us fault) : Stops limit (u ++ ts) (u ++ us) fault := by
  cases h with
  | finished hts => exact .finished (by rw [hts])
  | unclosed hts hvs hne => exact .unclosed (by rw [hts, List.append_assoc]) hvs hne
  | unopened hts => exact .unopened (by rw [hts, List.append_assoc])
  | deep hts hvs hle => exact .deep (by rw [hts, List.append_assoc]) hvs hle

theorem exists_stops_readMany (limit : Nat) (done : List Datum) (ts : List String) :
    ∃ us ds, (readMany limit [] done ts).data = done.reverse ++ ds ∧ DerivesAll us ds ∧
      nestingAll ds ≤ limit ∧ Stops limit ts us (readMany limit [] done ts).fault := by
  induction hlen : ts.length using Nat.strongRecOn generalizing ts done with
  | ind n ih =>
    by_cases hts : ts = []
    · subst hts
      exact ⟨[], [], by simp [readMany], .nil, Nat.zero_le _, .finished rfl⟩
    · have hstop := stopsAt_readOne limit ts
      rw [readMany_eq_readOne _ _ _ (.inr hts)]
      generalize readOne limit [] ts = result at hstop
      obtain ⟨result, rest⟩ := result
      have hstop : StopsAt limit ts result rest := hstop
      -- after an expression the reader goes on, with any other end it stops
      cases hstop with
      | @read u _ d heq hu hn =>
        have hshort : rest.length < n := by
          have := List.length_pos_iff.2 hu.ne_nil
          rw [heq, List.length_append] at hlen
          omega
        obtain ⟨us, ds, hdata, hds, hdeep, hstops⟩ := ih rest.length hshort (d :: done) rest rfl
        refine ⟨u ++ us, d :: ds, by simp [hdata], .cons hu hds, Nat.max_le.2 ⟨hn, hdeep⟩, ?_⟩
        rw [heq]
        exact hstops.append
      | unclosed hopens => exact ⟨[], [], by simp, .nil, Nat.zero_le _, .unclosed rfl hopens hts⟩
      | unopened heq => exact ⟨[], [], by simp, .nil, Nat.zero_le _, .unopened heq⟩
      | deep heq hopens hle => exact ⟨[], [], by simp, .nil, Nat.zero_le _, .deep heq hopens hle⟩

theorem exists_stops_parseAll (limit : Nat) (source : String) :
    ∃ us, DerivesAll us (parseAll limit source).1 ∧ nestingAll (parseAll limit source).1 ≤ limit ∧
      Stops limit (tokenize source) us (parseAll limit source).2 := by
  obtain ⟨us, ds, hdata, hds, hn, hstops⟩ := exists_stops_readMany limit [] (tokenize source)
  have hall : (parseAll limit source).1 = ds := hdata
  rw [hall]
  exact ⟨us, hds, hn, hstops⟩

/-! ## Depth where the reader stops -/

section Depths

variable {limit : Nat} {us vs : List String} {ds : List Datum} {pending : List (List Datum)}

theorem nonneg_append (hus : DerivesAll us ds) (hvs : Nonneg vs) : Nonneg (us ++ vs) := by
  refine forall_prefix_append (P := fun k => 0 ≤ k) hus.nonneg fun ws hws => ?_
  rw [hus.depth_eq, Int.zero_add]
  exact hvs ws hws

/-- Every prefix that goes beyond the derived tokens ends inside a list that is open. -/
theorem prefix_of_depth_eq_zero (hus : DerivesAll us ds) (hvs : Opens limit vs pending)
    {ws : List String} (hws : ws <+: us ++ vs) (hzero : depth ws = 0) : ws <+: us := by
  rcases List.prefix_or_prefix_of_prefix hws (List.prefix_append us vs) with h | ⟨xs, rfl⟩
  · exact h
  · have hxs := hvs.depth_prefix xs ((List.prefix_append_right_inj us).1 hws)
    have hnil : xs = [] := by
      by_contra hne
      have := hxs.1 hne
      rw [depth_append, hus.depth_eq] at hzero
      omega
    rw [hnil, List.append_nil]

theorem depth_pos_of_opens (hus : DerivesAll us ds) (hvs : Opens limit vs pending) (hne : vs ≠ []) :
    0 < depth (us ++ vs) := by
  have := (hvs.depth_prefix vs (List.prefix_refl vs)).1 hne
  rw [depth_append, hus.depth_eq]
  omega

/-- Nothing that has no prefix of negative depth goes past a parenthesis that closes no list. -/
theorem prefix_of_nonneg (hus : DerivesAll us ds) {ws rest : List String}
    (hws : ws <+: us ++ Token.closing :: rest) (h : Nonneg ws) : ws <+: us := by
  rcases List.prefix_or_prefix_of_prefix hws (List.prefix_append us _) with hle | ⟨xs, rfl⟩
  · exact hle
  · rcases List.prefix_cons_iff.1 ((List.prefix_append_right_inj us).1 hws) with rfl | ⟨ys, rfl, -⟩
    · rw [List.append_nil]
    · have hclose := h (us ++ [Token.closing])
        ((List.prefix_append_right_inj us).2 (List.prefix_append [Token.closing] ys))
      rw [depth_append, hus.depth_eq, depth_close] at hclose
      omega

/-- One more list inside lists that are as many as the limit. -/
theorem not_within_of_opens (hus : DerivesAll us ds) (hvs : Opens limit vs pending)
    (hdeep : limit ≤ pending.length) (rest : List String) :
    ¬ Within limit (us ++ (vs ++ Token.opening :: rest)) := by
  intro hwithin
  have hprefix : us ++ (vs ++ [Token.opening]) <+: us ++ (vs ++ Token.opening :: rest) := by
    rw [List.prefix_append_right_inj, List.prefix_append_right_inj]
    exact List.prefix_append [Token.opening] rest
  have hnonneg : Nonneg (us ++ (vs ++ [Token.opening])) := by
    refine nonneg_append hus ?_
    refine forall_prefix_append (P := fun k => 0 ≤ k) (fun ws hws => (hvs.depth_prefix ws hws).2.1) ?_
    refine forall_prefix_cons (P := fun k => 0 ≤ depth vs + k) ?_ fun ws hws => ?_
    · rw [hvs.depth_eq]
      omega
    · rw [List.prefix_nil.1 hws, hvs.depth_eq, depth_open, depth_nil]
      omega
  have := hwithin _ hprefix hnonneg
  rw [depth_append, depth_append, hus.depth_eq, hvs.depth_eq, depth_open] at this
  omega

end Depths

end Grammar

open Grammar

/-- Lists are nested too deep for the reader exactly if some prefix is, before any parenthesis that
closes no list. -/
theorem parseAll_eq_tooDeep_iff {limit : Nat} {source : String} :
    (parseAll limit source).2 = some .tooDeep ↔ ¬ Within limit (tokenize source) := by
  obtain ⟨us, hus, hn, hstops⟩ := exists_stops_parseAll limit source
  generalize (parseAll limit source).1 = ds, (parseAll limit source).2 = fault at *
  generalize tokenize source = ts at *
  have hle : ∀ ws, ws <+: us → depth ws ≤ limit := by
    intro ws hws
    have := hus.depth_prefix ws hws
    omega
  cases hstops with
  | finished hts =>
    subst hts
    exact ⟨nofun, fun h => absurd (fun ws hws _ => hle ws hws) h⟩
  | @unclosed vs pending hts hvs hne =>
    subst hts
    refine ⟨nofun, fun h => absurd (fun ws hws _ => ?_) h⟩
    refine forall_prefix_append (P := fun k => k ≤ limit) hle (fun xs hxs => ?_) ws hws
    have := hvs.depth_prefix xs hxs
    rw [hus.depth_eq]
    omega
  | @unopened rest hts =>
    subst hts
    exact ⟨nofun, fun h => absurd (fun ws hws hnonneg => hle ws (prefix_of_nonneg hus hws hnonneg)) h⟩
  | @deep vs rest pending hts hvs hdeep =>
    rw [hts]
    exact ⟨fun _ => not_within_of_opens hus hvs hdeep rest, fun _ => rfl⟩

/-! ## Top theorem -/

namespace Grammar

/-- The tokens come to an end before the first expression does. -/
def EndsEarly (ts : List String) : Prop :=
  ts = [] ∨ ts.head? = some Token.opening ∧ ∀ us, us <+: ts → us ≠ [] → depth us ≠ 0

/-- A token stands right after the first expression. -/
def Trails (ts : List String) (token : String) : Prop :=
  ∃ u d rest, Derives u d ∧ ts = u ++ token :: rest

/-- Before an expression is complete, a list of it is open. -/
theorem Opens.endsEarly {limit : Nat} {ts : List String} {pending : List (List Datum)}
    (h : Opens limit ts pending) : EndsEarly ts := by
  cases ts with
  | nil => exact Or.inl rfl
  | cons token ts =>
    have hpos := h.depth_prefix
    refine Or.inr ⟨?_, fun us hus hne => ?_⟩
    · have hfirst := (hpos [token] (List.prefix_append [token] ts)).1 (by simp)
      by_cases hopen : token = Token.opening
      · rw [hopen]
        rfl
      · by_cases hclose : token = Token.closing
        · rw [hclose, depth_close] at hfirst
          omega
        · rw [depth_atom hopen hclose] at hfirst
          omega
    · have := (hpos us hus).1 hne
      omega

theorem Derives.not_endsEarly {u rest : List String} {d : Datum} (h : Derives u d) :
    ¬ EndsEarly (u ++ rest) := by
  rintro (hnil | ⟨-, hdepth⟩)
  · exact h.ne_nil (List.append_eq_nil_iff.1 hnil).1
  · exact hdepth u (List.prefix_append u rest) h.ne_nil h.depth_eq

theorem Derives.head?_ne {u : List String} {d : Datum} (h : Derives u d) (rest : List String) :
    (u ++ rest).head? ≠ some Token.closing := by
  cases h with
  | atom _ hclose => simpa using hclose
  | list _ =>
    rw [List.cons_append, List.head?_cons]
    decide

theorem Trails.eq_of_derives {u rest : List String} {d : Datum} {token : String} (hu : Derives u d)
    (h : Trails (u ++ rest) token) : ∃ rest', rest = token :: rest' := by
  obtain ⟨u', d', rest', hu', heq⟩ := h
  exact ⟨rest', (hu.unique hu' heq).2.1⟩

theorem not_trails_of_endsEarly {ts : List String} (h : EndsEarly ts) (token : String) :
    ¬ Trails ts token := by
  rintro ⟨u, d, rest, hu, rfl⟩
  exact hu.not_endsEarly h

theorem not_trails_closing (rest : List String) (token : String) :
    ¬ Trails (Token.closing :: rest) token := by
  rintro ⟨u, d, rest', hu, heq⟩
  have hhead := hu.head?_ne (token :: rest')
  rw [← heq] at hhead
  exact hhead rfl

end Grammar

/-- What `parse` makes of a text, by where its first expression ends. -/
theorem parse_by_depth {limit : Nat} {source : String} (h : Within limit (tokenize source)) :
    (parse limit source = .error .unexpectedEnd ↔ EndsEarly (tokenize source)) ∧
    (parse limit source = .error .unmatchedClose ↔
      (tokenize source).head? = some Token.closing ∨ Trails (tokenize source) Token.closing) ∧
    (∀ token, parse limit source = .error (.trailing token) ↔
      token ≠ Token.closing ∧ Trails (tokenize source) token) ∧
    ((∃ d, parse limit source = .ok d) ↔ ¬ EndsEarly (tokenize source) ∧
      (tokenize source).head? ≠ some Token.closing ∧ ∀ token, ¬ Trails (tokenize source) token) := by
  have hstop := stopsAt_readOne limit (tokenize source)
  have hparse := parse_eq limit source
  generalize Reader.readOne limit [] (tokenize source) = result at hstop hparse
  obtain ⟨result, rest⟩ := result
  have hstop : StopsAt limit (tokenize source) result rest := hstop
  generalize tokenize source = ts at *
  cases hstop with
  | @read u _ d hts hu _ =>
    have hearly : ¬ EndsEarly ts := hts ▸ hu.not_endsEarly
    have hhead : ts.head? ≠ some Token.closing := hts ▸ hu.head?_ne rest
    have htrails : ∀ token, Trails ts token ↔ ∃ rest', rest = token :: rest' := by
      intro token
      rw [hts]
      refine ⟨fun ht => ht.eq_of_derives hu, ?_⟩
      rintro ⟨rest', rfl⟩
      exact ⟨u, d, rest', hu, rfl⟩
    cases rest with
    | nil => simp [hparse, hearly, hhead, htrails]
    | cons next rest =>
      by_cases hclose : next = Token.closing
      · simp [hparse, hearly, hhead, htrails, hclose, eq_comm]
      · have hother : ∀ token, next = token ↔ token ≠ Token.closing ∧ next = token :=
          fun token => ⟨fun h => ⟨h ▸ hclose, h⟩, And.right⟩
        simp [hparse, hearly, hhead, htrails, hclose, ← hother]
  | unclosed hopens =>
    have hearly := hopens.endsEarly
    have htrails := not_trails_of_endsEarly hearly
    have hhead : ts.head? ≠ some Token.closing := by
      rcases hearly with rfl | ⟨hopen, -⟩
      · exact nofun
      · rw [hopen]
        decide
    simp [hparse, hearly, hhead, htrails]
  | unopened hts =>
    have htrails : ∀ token, ¬ Trails ts token := hts ▸ not_trails_closing rest
    have hhead : ts.head? = some Token.closing := by rw [hts, List.head?_cons]
    have hearly : ¬ EndsEarly ts := by
      rintro (hnil | ⟨hopen, -⟩)
      · rw [hnil] at hhead
        cases hhead
      · rw [hopen] at hhead
        exact absurd hhead (by decide)
    simp [hparse, hearly, hhead, htrails]
  | deep hts hopens hdeep =>
    rw [hts] at h
    exact absurd h (not_within_of_opens .nil hopens hdeep rest)

/-- What `parseAll` makes of a text, by the depths of its prefixes. -/
theorem parseAll_by_depth {limit : Nat} {source : String} (h : Within limit (tokenize source)) :
    ((parseAll limit source).2 ≠ none ↔ ¬ Nonneg (tokenize source) ∨ 0 < depth (tokenize source)) ∧
    (¬ Nonneg (tokenize source) → (parseAll limit source).2 = some .unmatchedClose ∧
      ∃ us rest, tokenize source = us ++ Token.closing :: rest ∧ Nonneg us ∧
        depth (us ++ [Token.closing]) < 0 ∧ DerivesAll us (parseAll limit source).1) ∧
    (Nonneg (tokenize source) → 0 < depth (tokenize source) →
      (parseAll limit source).2 = some .unexpectedEnd ∧
      ∃ us, us <+: tokenize source ∧ depth us = 0 ∧
        (∀ ws, ws <+: tokenize source → depth ws = 0 → ws <+: us) ∧
        DerivesAll us (parseAll limit source).1) := by
  have hshallow : (parseAll limit source).2 ≠ some .tooDeep :=
    fun hdeep => parseAll_eq_tooDeep_iff.1 hdeep h
  obtain ⟨us, hus, -, hstops⟩ := exists_stops_parseAll limit source
  generalize (parseAll limit source).1 = ds, (parseAll limit source).2 = fault at *
  generalize tokenize source = ts at *
  cases hstops with
  | finished hts =>
    have hnonneg : Nonneg ts := hts ▸ hus.nonneg
    have hzero : depth ts = 0 := hts ▸ hus.depth_eq
    simp [hnonneg, hzero]
  | @unclosed vs pending hts hvs hne =>
    have hnonneg : Nonneg ts :=
      hts ▸ nonneg_append hus fun ws hws => (hvs.depth_prefix ws hws).2.1
    have hpos : 0 < depth ts := hts ▸ depth_pos_of_opens hus hvs hne
    refine ⟨by simp [hpos], fun hneg => absurd hnonneg hneg, fun _ _ => ⟨rfl, us, ?_, hus.depth_eq,
      fun ws hws hzero => prefix_of_depth_eq_zero hus hvs (hts ▸ hws) hzero, hus⟩⟩
    rw [hts]
    exact List.prefix_append us vs
  | @unopened rest hts =>
    have hclose : depth (us ++ [Token.closing]) < 0 := by
      rw [depth_append, hus.depth_eq, depth_close]
      omega
    have hneg : ¬ Nonneg ts := by
      intro hnonneg
      have hprefix : us ++ [Token.closing] <+: ts := by
        rw [hts, List.prefix_append_right_inj]
        exact List.prefix_append [Token.closing] rest
      have := hnonneg _ hprefix
      omega
    exact ⟨by simp [hneg], fun _ => ⟨rfl, us, rest, hts, hus.nonneg, hclose, hus⟩,
      fun hnonneg => absurd hnonneg hneg⟩
  | deep => exact absurd rfl hshallow

/-- Let no list of a text be nested too deep.  Reading it to the end fails exactly if some prefix of its
tokens has a negative depth or the whole has a positive one.  In the first case a parenthesis is
unmatched, and what was read are the expressions before the first one that makes the depth negative;
in the second the input ends too early, and what was read are the expressions of the longest prefix of
depth 0.  Reading one expression fails for want of input if there are no tokens, or the first opens a
list and no prefix has depth 0 again; for an unmatched parenthesis if one comes first or right after
the first expression; and for any other token right after it.  Otherwise it succeeds. -/
theorem reads_by_depth (limit : Nat) (source : String) (h : Within limit (tokenize source)) :
    let ts := tokenize source
    let all := parseAll limit source
    (all.2 ≠ none ↔ ¬ Nonneg ts ∨ 0 < depth ts) ∧
    (¬ Nonneg ts → all.2 = some .unmatchedClose ∧
      ∃ us rest, ts = us ++ Token.closing :: rest ∧ Nonneg us ∧ depth (us ++ [Token.closing]) < 0 ∧
        DerivesAll us all.1) ∧
    (Nonneg ts → 0 < depth ts → all.2 = some .unexpectedEnd ∧
      ∃ us, us <+: ts ∧ depth us = 0 ∧ (∀ ws, ws <+: ts → depth ws = 0 → ws <+: us) ∧
        DerivesAll us all.1) ∧
    (parse limit source = .error .unexpectedEnd ↔ EndsEarly ts) ∧
    (parse limit source = .error .unmatchedClose ↔
      ts.head? = some Token.closing ∨ Trails ts Token.closing) ∧
    (∀ token, parse limit source = .error (.trailing token) ↔
      token ≠ Token.closing ∧ Trails ts token) ∧
    ((∃ d, parse limit source = .ok d) ↔
      ¬ EndsEarly ts ∧ ts.head? ≠ some Token.closing ∧ ∀ token, ¬ Trails ts token) ∧
    ReadFault.unmatchedClose.message = "unmatched close" ∧
    ReadFault.unexpectedEnd.message = "unexpected end of input" ∧
    ∀ token, (ReadFault.trailing token).message =
      "unexpected token after expression: " ++ Text.quoted token := by
  obtain ⟨hfails, hunmatched, hends⟩ := parseAll_by_depth h
  obtain ⟨hearly, hclose, htrailing, hreads⟩ := parse_by_depth h
  exact ⟨hfails, hunmatched, hends, hearly, hclose, htrailing, hreads, rfl, rfl, fun _ => rfl⟩

/-- `(a)` is read before the list that `(b (c)` leaves open, and the parenthesis after it is what
`parse` complains of; in `(a) b) (c` two expressions stand before the unmatched one. -/
theorem reads_by_depth_interrupted :
    Within 2 (tokenize "(a) (b (c)") ∧ Within 2 (tokenize "(a) b) (c") ∧
      (parseAll 2 "(a) (b (c)").2 = some .unexpectedEnd ∧
      (parseAll 2 "(a) b) (c").2 = some .unmatchedClose ∧
      parse 2 "(a) (b (c)" = .error (.trailing "(") := by
  have hopen : Within 2 (tokenize "(a) (b (c)") := by decide +kernel
  have hclose : Within 2 (tokenize "(a) b) (c") := by decide +kernel
  have htokens : tokenize "(a) (b (c)" = ["(", "a", ")"] ++ "(" :: ["b", "(", "c", ")"] := by
    decide +kernel
  have hfirst : Derives ["(", "a", ")"] (.list [Datum.atom "a"]) :=
    .list (.cons (.atom (by decide) (by decide)) .nil)
  obtain ⟨-, -, hends, -, -, htrailing, -⟩ := reads_by_depth 2 "(a) (b (c)" hopen
  obtain ⟨-, hunmatched, -⟩ := reads_by_depth 2 "(a) b) (c" hclose
  refine ⟨hopen, hclose, (hends (by decide +kernel) (by decide +kernel)).1,
    (hunmatched (by decide +kernel)).1, (htrailing "(").2 ⟨by decide, ?_⟩⟩
  exact ⟨_, _, _, hfirst, htokens⟩

end SmallLisp

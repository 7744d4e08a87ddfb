import SmallLisp.Datum.Reader

/-!
The grammar of expressions, and that the reader accepts exactly what it derives.

An expression is an atom, which is any token but a parenthesis, or expressions between parentheses
(`Grammar.Derives`).  The tokens that the reader has taken so far are those of the lists that it holds
open (`Grammar.Opens`), and one more token keeps it so (`Grammar.Opens.step`); hence what it reads
derives the datum that it gives.  Conversely tokens that derive a datum are read as that datum,
whatever lists are open and whatever follows:

    Derives u d → pending.length + d.nesting ≤ limit →
      readOne limit pending (u ++ rest) = resume limit (place d pending) rest
                                                                     (Reader.readOne_derives)
-/

namespace SmallLisp

/-! ## Nesting -/

namespace Datum

mutual

/-- How deep lists are nested in a datum. -/
def nesting : Datum → Nat
  | .number _ => 0
  | .symbol _ => 0
  | .list items => nestingAll items + 1

def nestingAll : List Datum → Nat
  | [] => 0
  | d :: ds => max (nesting d) (nestingAll ds)

end

@[simp] theorem nesting_atom (token : String) : (atom token).nesting = 0 := by
  unfold atom
  split <;> rfl

theorem nestingAll_append (ds es : List Datum) :
    nestingAll (ds ++ es) = max (nestingAll ds) (nestingAll es) := by
  induction ds with
  | nil => simp [nestingAll]
  | cons d ds ih => rw [List.cons_append, nestingAll, nestingAll, ih, Nat.max_assoc]

end Datum

/-! ## The grammar -/

namespace Grammar

mutual

/-- Tokens that are one expression, and the datum that they stand for. -/
inductive Derives : List String → Datum → Prop
  | atom {token : String} : token ≠ Token.opening → token ≠ Token.closing →
      Derives [token] (Datum.atom token)
  | list {us : List String} {ds : List Datum} : DerivesAll us ds →
      Derives (Token.opening :: (us ++ [Token.closing])) (.list ds)

/-- Tokens that are expressions one after another. -/
inductive DerivesAll : List String → List Datum → Prop
  | nil : DerivesAll [] []
  | cons {u us : List String} {d : Datum} {ds : List Datum} : Derives u d → DerivesAll us ds →
      DerivesAll (u ++ us) (d :: ds)

end

theorem Derives.ne_nil {u : List String} {d : Datum} (h : Derives u d) : u ≠ [] := by
  cases h <;> simp

theorem Derives.single {u : List String} {d : Datum} (h : Derives u d) : DerivesAll u [d] := by
  have := DerivesAll.cons h .nil
  rwa [List.append_nil] at this

theorem DerivesAll.append {us vs : List String} {ds es : List Datum} :
    DerivesAll us ds → DerivesAll vs es → DerivesAll (us ++ vs) (ds ++ es)
  | .nil, h => h
  | .cons hd hds, h => by
    rw [List.append_assoc]
    exact .cons hd (hds.append h)

end Grammar

/-! ## Steps of the reader -/

namespace Reader

open Grammar Datum

/-- Reading on after a token. -/
def resume (limit : Nat) (p : Progress) (rest : List String) : Except ReadFault Datum × List String :=
  match p with
  | .more pending => readOne limit pending rest
  | .done d => (.ok d, rest)
  | .fail f => (.error f, rest)

theorem readOne_cons (limit : Nat) (pending : List (List Datum)) (token : String)
    (rest : List String) :
    readOne limit pending (token :: rest) = resume limit (step limit pending token) rest :=
  rfl

theorem step_open {limit : Nat} {pending : List (List Datum)} (h : pending.length < limit) :
    step limit pending Token.opening = .more ([] :: pending) := by
  unfold step
  rw [if_pos rfl, if_pos h]

theorem step_open_deep {limit : Nat} {pending : List (List Datum)} (h : ¬ pending.length < limit) :
    step limit pending Token.opening = .fail .tooDeep := by
  unfold step
  rw [if_pos rfl, if_neg h]

theorem step_close (limit : Nat) (items : List Datum) (outer : List (List Datum)) :
    step limit (items :: outer) Token.closing = place (.list items.reverse) outer := by
  unfold step
  rw [if_neg (by decide), if_pos rfl]

theorem step_atom (limit : Nat) (pending : List (List Datum)) {token : String}
    (hopen : token ≠ Token.opening) (hclose : token ≠ Token.closing) :
    step limit pending token = place (atom token) pending := by
  unfold step
  rw [if_neg hopen, if_neg hclose]

theorem place_ne_more_nil (d : Datum) (pending : List (List Datum)) : place d pending ≠ .more [] := by
  cases pending <;> simp [place]

theorem step_ne_more_nil (limit : Nat) (pending : List (List Datum)) (token : String) :
    step limit pending token ≠ .more [] := by
  by_cases hopen : token = Token.opening
  · subst hopen
    by_cases h : pending.length < limit
    · simp [step_open h]
    · simp [step_open_deep h]
  · by_cases hclose : token = Token.closing
    · subst hclose
      cases pending with
      | nil => exact nofun
      | cons items outer =>
        rw [step_close]
        exact place_ne_more_nil _ outer
    · rw [step_atom limit pending hopen hclose]
      exact place_ne_more_nil _ pending

/-! ## What is derived is read -/

mutual

/-- The tokens of an expression make its datum, whatever lists are open and whatever follows. -/
theorem readOne_derives {limit : Nat} : ∀ {u : List String} {d : Datum} {pending : List (List Datum)}
    (rest : List String), Derives u d → pending.length + d.nesting ≤ limit →
    readOne limit pending (u ++ rest) = resume limit (place d pending) rest
  | _, _, pending, rest, .atom hopen hclose, _ => by
    rw [List.singleton_append, readOne_cons, step_atom limit pending hopen hclose]
  | _, .list ds, pending, rest, .list hds, hn => by
    have hn : pending.length + (nestingAll ds + 1) ≤ limit := hn
    rw [List.cons_append, List.append_assoc, readOne_cons, step_open (by omega)]
    show readOne limit ([] :: pending) _ = _
    rw [readOne_derivesAll _ hds (by rw [List.length_cons]; omega), List.singleton_append,
      readOne_cons, step_close, List.append_nil, List.reverse_reverse]

theorem readOne_derivesAll {limit : Nat} : ∀ {us : List String} {ds items : List Datum}
    {outer : List (List Datum)} (rest : List String), DerivesAll us ds →
    (items :: outer).length + nestingAll ds ≤ limit →
    readOne limit (items :: outer) (us ++ rest) =
      readOne limit ((ds.reverse ++ items) :: outer) rest
  | _, _, _, _, _, .nil, _ => rfl
  | _, d :: ds, items, outer, rest, .cons hd hds, hn => by
    have hn : (items :: outer).length + max d.nesting (nestingAll ds) ≤ limit := hn
    have hlen : (items :: outer).length = ((d :: items) :: outer).length := rfl
    rw [List.append_assoc, readOne_derives _ hd (by omega)]
    show readOne limit ((d :: items) :: outer) _ = _
    rw [readOne_derivesAll _ hds (by omega), List.reverse_cons, List.append_assoc,
      List.singleton_append]

end

end Reader

/-! ## What is read is derived -/

namespace Grammar

open Reader

/-- The tokens taken so far are those of the lists that are open, none of them nested too deep. -/
inductive Opens (limit : Nat) : List String → List (List Datum) → Prop
  | nil : Opens limit [] []
  | cons {us vs : List String} {items : List Datum} {outer : List (List Datum)} :
      Opens limit us outer → DerivesAll vs items.reverse →
      outer.length + (Datum.list items.reverse).nesting ≤ limit →
      Opens limit (us ++ Token.opening :: vs) (items :: outer)

/-- What the tokens taken so far are, by what they have led to. -/
def Accounts (limit : Nat) (us : List String) : Progress → Prop
  | .more pending => Opens limit us pending
  | .done d => Derives us d ∧ d.nesting ≤ limit
  | .fail _ => True

variable {limit : Nat} {us : List String} {pending : List (List Datum)}

theorem Opens.place {u : List String} {d : Datum} (h : Opens limit us pending) (hu : Derives u d)
    (hn : pending.length + d.nesting ≤ limit) : Accounts limit (us ++ u) (Reader.place d pending) := by
  cases h with
  | nil =>
    rw [List.length_nil, Nat.zero_add] at hn
    exact ⟨hu, hn⟩
  | @cons us vs items outer hus hvs hitems =>
    have hall : DerivesAll (vs ++ u) (d :: items).reverse := by
      rw [List.reverse_cons]
      exact hvs.append hu.single
    have hdeep : outer.length + (Datum.list (d :: items).reverse).nesting ≤ limit := by
      simp only [Datum.nesting, List.length_cons] at hn hitems ⊢
      rw [List.reverse_cons, Datum.nestingAll_append]
      simp only [Datum.nestingAll]
      omega
    show Opens limit ((us ++ Token.opening :: vs) ++ u) ((d :: items) :: outer)
    rw [List.append_assoc, List.cons_append]
    exact .cons hus hall hdeep

theorem Opens.step (h : Opens limit us pending) (token : String) :
    Accounts limit (us ++ [token]) (Reader.step limit pending token) := by
  by_cases hopen : token = Token.opening
  · subst hopen
    by_cases hlt : pending.length < limit
    · rw [step_open hlt]
      exact .cons h .nil (by show pending.length + 1 ≤ limit; omega)
    · rw [step_open_deep hlt]
      trivial
  · by_cases hclose : token = Token.closing
    · subst hclose
      cases h with
      | nil => trivial
      | @cons us vs items outer hus hvs hitems =>
        -- the innermost list is complete: its tokens are one expression in the list around it
        have hlist := Derives.list hvs
        rw [step_close, List.append_assoc, List.cons_append]
        exact hus.place hlist hitems
    · have hlen : pending.length ≤ limit := by
        cases h with
        | nil => exact Nat.zero_le _
        | cons _ _ hitems =>
          simp only [Datum.nesting, List.length_cons] at hitems ⊢
          omega
      rw [step_atom limit pending hopen hclose]
      exact h.place (.atom hopen hclose) (by rw [Datum.nesting_atom]; exact hlen)

theorem Opens.derives_of_readOne {ts rest : List String} {d : Datum} (h : Opens limit us pending)
    (hread : readOne limit pending ts = (.ok d, rest)) :
    ∃ u, ts = u ++ rest ∧ Derives (us ++ u) d ∧ d.nesting ≤ limit := by
  induction ts generalizing us pending with
  | nil => cases hread
  | cons token ts ih =>
    have hstep := h.step token
    rw [readOne_cons] at hread
    cases hp : Reader.step limit pending token with
    | more pending' =>
      rw [hp] at hread hstep
      obtain ⟨u, rfl, hu, hn⟩ := ih hstep hread
      rw [List.append_assoc] at hu
      exact ⟨token :: u, rfl, hu, hn⟩
    | done d' =>
      rw [hp] at hread hstep
      cases hread
      exact ⟨[token], rfl, hstep⟩
    | fail f =>
      rw [hp] at hread
      cases hread

/-- The reader takes an expression off the front of the tokens exactly where the grammar derives one. -/
theorem readOne_eq_ok_iff {ts rest : List String} {d : Datum} :
    readOne limit [] ts = (.ok d, rest) ↔ ∃ u, ts = u ++ rest ∧ Derives u d ∧ d.nesting ≤ limit := by
  constructor
  · exact fun hread => Opens.nil.derives_of_readOne hread
  · rintro ⟨u, rfl, hu, hn⟩
    rw [readOne_derives rest hu (by rw [List.length_nil]; omega)]
    rfl

theorem Derives.unique {u u' r r' : List String} {d d' : Datum} (h : Derives u d)
    (h' : Derives u' d') (heq : u ++ r = u' ++ r') : u = u' ∧ r = r' ∧ d = d' := by
  have hd : readOne (max d.nesting d'.nesting) [] (u ++ r) = (.ok d, r) :=
    readOne_eq_ok_iff.2 ⟨u, rfl, h, Nat.le_max_left _ _⟩
  have hd' : readOne (max d.nesting d'.nesting) [] (u' ++ r') = (.ok d', r') :=
    readOne_eq_ok_iff.2 ⟨u', rfl, h', Nat.le_max_right _ _⟩
  rw [heq, hd', Prod.mk.injEq, Except.ok.injEq] at hd
  obtain ⟨rfl, rfl⟩ := hd
  exact ⟨List.append_cancel_right heq, rfl, rfl⟩

end Grammar

/-! ## Reading to the end -/

namespace Reader

open Grammar Datum

variable {limit : Nat}

/-- The data read before are put in front of the others and change nothing else. -/
theorem readMany_done (pending : List (List Datum)) (done : List Datum) (ts : List String) :
    readMany limit pending done ts =
      ⟨done.reverse ++ (readMany limit pending [] ts).data, (readMany limit pending [] ts).fault,
        (readMany limit pending [] ts).rest⟩ := by
  induction ts generalizing pending done with
  | nil => simp [readMany]
  | cons token ts ih =>
    simp only [readMany]
    cases step limit pending token with
    | more pending' => exact ih pending' done
    | done d =>
      dsimp only
      rw [ih [] (d :: done), ih [] [d]]
      simp
    | fail f => simp

/-- Reading to the end is reading one expression, then reading to the end. -/
theorem readMany_eq_readOne (pending : List (List Datum)) (done : List Datum) (ts : List String)
    (h : pending ≠ [] ∨ ts ≠ []) :
    readMany limit pending done ts =
      match readOne limit pending ts with
      | (.ok d, rest) => readMany limit [] (d :: done) rest
      | (.error f, rest) => ⟨done.reverse, some f, rest⟩ := by
  induction ts generalizing pending with
  | nil =>
    have hne : pending.isEmpty = false := by simpa using h
    simp [readMany, readOne, hne]
  | cons token ts ih =>
    rw [readOne_cons, readMany]
    cases hp : step limit pending token with
    | more pending' =>
      have hne : pending' ≠ [] := by
        rintro rfl
        exact step_ne_more_nil limit pending token hp
      exact ih pending' (.inl hne)
    | done d => rfl
    | fail f => rfl

theorem readMany_derivesAll : ∀ {us : List String} {ds : List Datum} (done : List Datum)
    (rest : List String), DerivesAll us ds → nestingAll ds ≤ limit →
    readMany limit [] done (us ++ rest) = readMany limit [] (ds.reverse ++ done) rest
  | _, _, _, _, .nil, _ => rfl
  | _, d :: ds, done, rest, @DerivesAll.cons u us _ _ hd hds, hn => by
    obtain ⟨hd_le, hds_le⟩ := Nat.max_le.1 hn
    have hread : readOne limit [] (u ++ (us ++ rest)) = (.ok d, us ++ rest) :=
      readOne_eq_ok_iff.2 ⟨u, rfl, hd, hd_le⟩
    rw [List.append_assoc, readMany_eq_readOne _ _ _ (.inr (by simp [hd.ne_nil])), hread]
    show readMany limit [] (d :: done) (us ++ rest) = _
    rw [readMany_derivesAll (d :: done) rest hds hds_le, List.reverse_cons, List.append_assoc,
      List.singleton_append]

theorem derivesAll_of_readMany {ts : List String} {done : List Datum}
    (h : (readMany limit [] done ts).fault = none) :
    ∃ ds, (readMany limit [] done ts).data = done.reverse ++ ds ∧ DerivesAll ts ds ∧
      nestingAll ds ≤ limit := by
  induction hlen : ts.length using Nat.strongRecOn generalizing ts done with
  | ind n ih =>
    by_cases hts : ts = []
    · subst hts
      exact ⟨[], by simp [readMany], .nil, Nat.zero_le _⟩
    · rw [readMany_eq_readOne _ _ _ (.inr hts)] at h ⊢
      split at h
      · next d rest hread =>
        obtain ⟨u, rfl, hu, hn⟩ := readOne_eq_ok_iff.1 hread
        have hshort : rest.length < n := by
          have := List.length_pos_iff.2 hu.ne_nil
          rw [List.length_append] at hlen
          omega
        obtain ⟨ds, hdata, hds, hdeep⟩ := ih rest.length hshort h rfl
        exact ⟨d :: ds, by simp [hdata], .cons hu hds, Nat.max_le.2 ⟨hn, hdeep⟩⟩
      · cases h

theorem readMany_eq_iff {ts : List String} {ds : List Datum} :
    (readMany limit [] [] ts).data = ds ∧ (readMany limit [] [] ts).fault = none ↔
      DerivesAll ts ds ∧ nestingAll ds ≤ limit := by
  constructor
  · rintro ⟨rfl, hfault⟩
    obtain ⟨ds, hdata, hall⟩ := derivesAll_of_readMany hfault
    rw [hdata]
    exact hall
  · rintro ⟨hall, hn⟩
    have h := readMany_derivesAll [] [] hall hn
    rw [List.append_nil, List.append_nil] at h
    rw [h]
    simp [readMany]

end Reader

/-! ## Top theorem -/

/-- One expression with nothing after it is what `parse` asks for. -/
theorem parse_eq (limit : Nat) (source : String) :
    parse limit source =
      match Reader.readOne limit [] (tokenize source) with
      | (.error f, _) => .error f
      | (.ok d, []) => .ok d
      | (.ok _, token :: _) =>
        if token = Token.closing then .error .unmatchedClose else .error (.trailing token) := by
  unfold parse TokenStream.readExpr
  have hunread : (TokenStream.ofTokens (tokenize source)).unread = tokenize source := rfl
  rw [hunread]
  rcases Reader.readOne limit [] (tokenize source) with ⟨_ | d, _ | ⟨token, rest⟩⟩ <;> rfl

theorem parse_eq_ok_iff {limit : Nat} {source : String} {d : Datum} :
    parse limit source = .ok d ↔ Grammar.Derives (tokenize source) d ∧ d.nesting ≤ limit := by
  have hwhole : parse limit source = .ok d ↔
      Reader.readOne limit [] (tokenize source) = (.ok d, []) := by
    rw [parse_eq]
    split
    · next hread => simp [hread]
    · next hread => simp [hread]
    · next hread =>
      rw [hread]
      split <;> simp
  rw [hwhole, Grammar.readOne_eq_ok_iff]
  constructor
  · rintro ⟨u, hu, h⟩
    rw [hu, List.append_nil]
    exact h
  · exact fun h => ⟨tokenize source, by simp, h⟩

theorem parseAll_eq_iff {limit : Nat} {source : String} {ds : List Datum} :
    parseAll limit source = (ds, none) ↔
      Grammar.DerivesAll (tokenize source) ds ∧ Datum.nestingAll ds ≤ limit := by
  rw [← Reader.readMany_eq_iff]
  exact Prod.ext_iff

open Grammar in
/-- A stream gives an expression, and the tokens left after it, exactly where the grammar derives the
expression from the tokens before them; there is one way at most to split the tokens so.  A whole text
is one expression, or a sequence of them, exactly where the grammar says so of its tokens. -/
theorem reads_iff_derives (limit : Nat) :
    (∀ (s : TokenStream) (d : Datum) (rest : List String),
      (∃ s', s.readExpr limit = (.ok d, s') ∧ s'.unread = rest) ↔
        ∃ u, s.unread = u ++ rest ∧ Derives u d ∧ d.nesting ≤ limit) ∧
    (∀ (u u' rest rest' : List String) (d d' : Datum), Derives u d → Derives u' d' →
      u ++ rest = u' ++ rest' → u = u' ∧ rest = rest' ∧ d = d') ∧
    (∀ source d, parse limit source = .ok d ↔ Derives (tokenize source) d ∧ d.nesting ≤ limit) ∧
    (∀ source ds, parseAll limit source = (ds, none) ↔
      DerivesAll (tokenize source) ds ∧ Datum.nestingAll ds ≤ limit) := by
  refine ⟨fun s d rest => ?_, fun _ _ _ _ _ _ h h' => h.unique h', fun _ _ => parse_eq_ok_iff,
    fun _ _ => parseAll_eq_iff⟩
  rw [← readOne_eq_ok_iff]
  constructor
  · rintro ⟨s', hread, rfl⟩
    obtain ⟨hd, rfl⟩ := Prod.mk.inj hread
    exact Prod.ext hd rfl
  · intro hread
    refine ⟨.ofTokens rest, ?_, rfl⟩
    unfold TokenStream.readExpr
    rw [hread]

/-- `(a ())` with its first token already looked at and `b` after it. -/
theorem reads_iff_derives_looked_at :
    (∃ s', (TokenStream.mk ["("] ["a", "(", ")", ")", "b"]).readExpr 2 =
        (.ok (.list [.symbol "a", .list []]), s') ∧ s'.unread = ["b"]) ∧
    (∀ u rest d, Grammar.Derives u d → ["(", "a", "(", ")", ")", "b"] = u ++ rest →
      rest = ["b"] ∧ d = .list [.symbol "a", .list []]) := by
  have hatom : Datum.atom "a" = .symbol "a" := by
    have hnone : Decimal.ofChars? "a".toList = none := by decide +kernel
    rw [Datum.atom, hnone]
  have hderives : Grammar.Derives ["(", "a", "(", ")", ")"] (.list [.symbol "a", .list []]) := by
    rw [← hatom]
    exact .list (.cons (.atom (by decide) (by decide)) (.cons (.list .nil) .nil))
  obtain ⟨hread, hunique, -, -⟩ := reads_iff_derives 2
  refine ⟨(hread _ _ _).2 ⟨_, rfl, hderives, by decide⟩, fun u rest d h heq => ?_⟩
  obtain ⟨-, hrest, hd⟩ := hunique _ _ _ _ _ _ hderives h heq
  exact ⟨hrest.symm, hd.symm⟩

end SmallLisp

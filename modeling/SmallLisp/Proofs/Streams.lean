import SmallLisp.Proofs.Balance

/-!
Token streams as lists of unread tokens.

A stream keeps its tokens in two places, a look-ahead buffer and the rest.  Looking at the next token
may move it from the one to the other, but the buffer never holds more than one (`buffer_peek`,
`buffer_advance`).  Reading is stated here once more as recursive descent that touches the stream by
`peek` and `advance` alone (`Descends`, `DescendsAll`), wherever a fault may leave it:

    s.readExpr limit = (r, s') ↔ Descends limit s r s'                        (readExpr_eq_iff)

Hence each call sees and changes the unread tokens only (`Call.perform_eq`), and so does every sequence
of calls (`answers_perform`).
-/

namespace SmallLisp

namespace TokenStream

open Grammar Reader

variable {limit : Nat} {s s' : TokenStream}

/-! ## Looking at the next token and taking it -/

theorem peek_fst (s : TokenStream) : s.peek.1 = s.unread.head? := by
  obtain ⟨_ | ⟨token, buffer⟩, _ | ⟨token', rest⟩⟩ := s <;> rfl

theorem unread_peek (s : TokenStream) : s.peek.2.unread = s.unread := by
  obtain ⟨_ | ⟨token, buffer⟩, _ | ⟨token', rest⟩⟩ := s <;> rfl

theorem advance_fst (s : TokenStream) : s.advance.1 = s.unread.head? := by
  obtain ⟨_ | ⟨token, buffer⟩, _ | ⟨token', rest⟩⟩ := s <;> rfl

theorem unread_advance (s : TokenStream) : s.advance.2.unread = s.unread.tail := by
  obtain ⟨_ | ⟨token, buffer⟩, _ | ⟨token', rest⟩⟩ := s <;> rfl

theorem buffer_peek (h : s.buffer.length ≤ 1) : s.peek.2.buffer.length ≤ 1 := by
  obtain ⟨_ | ⟨token, buffer⟩, _ | ⟨token', rest⟩⟩ := s
  · exact h
  · exact Nat.le_refl 1
  · exact h
  · exact h

theorem buffer_advance (h : s.buffer.length ≤ 1) : s.advance.2.buffer = [] := by
  obtain ⟨_ | ⟨token, buffer⟩, rest⟩ := s
  · cases rest <;> rfl
  · show buffer = []
    exact List.length_eq_zero_iff.1 (Nat.le_zero.1 (Nat.le_of_succ_le_succ h))

theorem eq_ofTokens (h : s.buffer = []) : s = ofTokens s.unread := by
  obtain ⟨buffer, rest⟩ := s
  subst h
  rfl

theorem eq_ofTokens_nil (h : s.unread = []) : s = ofTokens [] := by
  obtain ⟨buffer, rest⟩ := s
  obtain ⟨rfl, rfl⟩ := List.append_eq_nil_iff.1 h
  rfl

theorem buffer_le_one (h : s.buffer = []) : s.buffer.length ≤ 1 := by
  rw [h]
  exact Nat.zero_le 1

theorem of_peek {token : String} (h : s.peek = (some token, s')) (hbuffer : s.buffer.length ≤ 1) :
    s'.buffer.length ≤ 1 ∧ ∃ rest, s.unread = token :: rest ∧ s'.unread = token :: rest := by
  have hkept := buffer_peek hbuffer
  have hhead := peek_fst s
  have hunread := unread_peek s
  rw [h] at hkept hhead hunread
  obtain ⟨rest, hrest⟩ := List.head?_eq_some_iff.1 hhead.symm
  exact ⟨hkept, rest, hrest, hunread.trans hrest⟩

theorem of_peek_none (h : s.peek = (none, s')) : s.unread = [] ∧ s' = ofTokens [] := by
  have hhead := peek_fst s
  have hunread := unread_peek s
  rw [h] at hhead hunread
  have hnil := List.head?_eq_none_iff.1 hhead.symm
  exact ⟨hnil, eq_ofTokens_nil (hunread.trans hnil)⟩

theorem of_advance {token : String} (h : s.advance = (some token, s'))
    (hbuffer : s.buffer.length ≤ 1) : s'.buffer = [] ∧ s.unread = token :: s'.unread := by
  have hempty := buffer_advance hbuffer
  have hhead := advance_fst s
  have hunread := unread_advance s
  rw [h] at hempty hhead hunread
  obtain ⟨rest, hrest⟩ := List.head?_eq_some_iff.1 hhead.symm
  rw [hrest] at hunread ⊢
  exact ⟨hempty, congrArg (token :: ·) hunread.symm⟩

theorem of_advance_none (h : s.advance = (none, s')) : s.unread = [] ∧ s' = ofTokens [] := by
  have hhead := advance_fst s
  have hunread := unread_advance s
  rw [h] at hhead hunread
  have hnil := List.head?_eq_none_iff.1 hhead.symm
  rw [hnil] at hunread
  exact ⟨hnil, eq_ofTokens_nil hunread⟩

/-! ## Recursive descent -/

mutual

/-- Reading one expression, with that many lists allowed inside one another. -/
inductive Descends : Nat → TokenStream → Except ReadFault Datum → TokenStream → Prop
  | finished {limit : Nat} {s s' : TokenStream} : s.advance = (none, s') →
      Descends limit s (.error .unexpectedEnd) s'
  | unopened {limit : Nat} {s s' : TokenStream} : s.advance = (some Token.closing, s') →
      Descends limit s (.error .unmatchedClose) s'
  | atom {limit : Nat} {s s' : TokenStream} {token : String} : s.advance = (some token, s') →
      token ≠ Token.opening → token ≠ Token.closing → Descends limit s (.ok (Datum.atom token)) s'
  | deep {s s' : TokenStream} : s.advance = (some Token.opening, s') →
      Descends 0 s (.error .tooDeep) s'
  | list {limit : Nat} {s s₁ s' : TokenStream} {r : Except ReadFault Datum} :
      s.advance = (some Token.opening, s₁) → DescendsItems limit s₁ [] r s' →
      Descends (limit + 1) s r s'

/-- Reading the items of a list after those that were read, and its closing parenthesis. -/
inductive DescendsItems :
    Nat → TokenStream → List Datum → Except ReadFault Datum → TokenStream → Prop
  | finished {limit : Nat} {s s' : TokenStream} {items : List Datum} : s.peek = (none, s') →
      DescendsItems limit s items (.error .unexpectedEnd) s'
  | close {limit : Nat} {s s₁ : TokenStream} {items : List Datum} :
      s.peek = (some Token.closing, s₁) → DescendsItems limit s items (.ok (.list items)) s₁.advance.2
  | fault {limit : Nat} {s s₁ s' : TokenStream} {items : List Datum} {token : String} {f : ReadFault} :
      s.peek = (some token, s₁) → token ≠ Token.closing → Descends limit s₁ (.error f) s' →
      DescendsItems limit s items (.error f) s'
  | item {limit : Nat} {s s₁ s₂ s' : TokenStream} {items : List Datum} {token : String} {d : Datum}
      {r : Except ReadFault Datum} :
      s.peek = (some token, s₁) → token ≠ Token.closing → Descends limit s₁ (.ok d) s₂ →
      DescendsItems limit s₂ (items ++ [d]) r s' → DescendsItems limit s items r s'

end

/-- Reading one expression after another for as long as a token is there. -/
inductive DescendsAll (limit : Nat) :
    TokenStream → List Datum → Option ReadFault → TokenStream → Prop
  | finished {s s' : TokenStream} : s.peek = (none, s') → DescendsAll limit s [] none s'
  | fault {s s₁ s' : TokenStream} {token : String} {f : ReadFault} : s.peek = (some token, s₁) →
      Descends limit s₁ (.error f) s' → DescendsAll limit s [] (some f) s'
  | item {s s₁ s₂ s' : TokenStream} {token : String} {d : Datum} {ds : List Datum}
      {fault : Option ReadFault} : s.peek = (some token, s₁) → Descends limit s₁ (.ok d) s₂ →
      DescendsAll limit s₂ ds fault s' → DescendsAll limit s (d :: ds) fault s'

/-- What reading an expression inside open lists leads to. -/
def after (pending : List (List Datum)) : Except ReadFault Datum → Progress
  | .ok d => place d pending
  | .error f => .fail f

theorem resume_after_nil (limit : Nat) (r : Except ReadFault Datum) (rest : List String) :
    resume limit (after [] r) rest = (r, rest) := by
  cases r <;> rfl

mutual

/-- Descent reads as the reader does, whatever lists are open: the lists that the reader keeps are those
that the descent is in.  A closing parenthesis is left to the list around. -/
theorem Descends.reads : ∀ {k : Nat} {s s' : TokenStream} {r : Except ReadFault Datum},
    Descends k s r s' → s.buffer.length ≤ 1 → ∀ {limit : Nat} (pending : List (List Datum)),
    pending.length + k = limit → pending = [] ∨ s.unread.head? ≠ some Token.closing →
    s'.buffer = [] ∧
      readOne limit pending s.unread = resume limit (after pending r) s'.unread
  | _, s, _, _, .finished h, _, limit, pending, _, _ => by
    obtain ⟨hs, rfl⟩ := of_advance_none h
    rw [hs]
    exact ⟨rfl, rfl⟩
  | _, s, s', _, .unopened h, hbuffer, limit, pending, _, hpending => by
    obtain ⟨hempty, hs⟩ := of_advance h hbuffer
    refine ⟨hempty, ?_⟩
    -- inside a list the loop over its items has seen the parenthesis first
    rw [hs] at hpending ⊢
    obtain rfl : pending = [] := hpending.resolve_right fun hne => hne rfl
    rfl
  | _, s, s', _, .atom h hopen hclose, hbuffer, limit, pending, _, _ => by
    obtain ⟨hempty, hs⟩ := of_advance h hbuffer
    rw [hs, readOne_cons, step_atom limit pending hopen hclose]
    exact ⟨hempty, rfl⟩
  | _, s, s', _, .deep h, hbuffer, limit, pending, hlimit, _ => by
    obtain ⟨hempty, hs⟩ := of_advance h hbuffer
    rw [hs, readOne_cons, step_open_deep (by omega)]
    exact ⟨hempty, rfl⟩
  | _, s, s', _, .list h hitems, hbuffer, limit, pending, hlimit, _ => by
    obtain ⟨hempty, hs⟩ := of_advance h hbuffer
    rw [hs, readOne_cons, step_open (by omega)]
    exact hitems.reads (buffer_le_one hempty) pending (by omega)

theorem DescendsItems.reads : ∀ {k : Nat} {s s' : TokenStream} {items : List Datum}
    {r : Except ReadFault Datum}, DescendsItems k s items r s' → s.buffer.length ≤ 1 →
    ∀ {limit : Nat} (pending : List (List Datum)), pending.length + 1 + k = limit →
    s'.buffer = [] ∧
      readOne limit (items.reverse :: pending) s.unread = resume limit (after pending r) s'.unread
  | _, s, _, _, _, .finished h, _, limit, pending, _ => by
    obtain ⟨hs, rfl⟩ := of_peek_none h
    rw [hs]
    exact ⟨rfl, rfl⟩
  | _, s, _, items, _, @DescendsItems.close _ _ s₁ _ h, hbuffer, limit, pending, _ => by
    obtain ⟨hbuffer₁, rest, hs, hs₁⟩ := of_peek h hbuffer
    refine ⟨buffer_advance hbuffer₁, ?_⟩
    rw [hs, readOne_cons, step_close, List.reverse_reverse, unread_advance, hs₁]
    rfl
  | _, s, s', items, _, @DescendsItems.fault _ _ s₁ _ _ _ _ h hclose hd, hbuffer, limit, pending,
      hlimit => by
    obtain ⟨hbuffer₁, rest, hs, hs₁⟩ := of_peek h hbuffer
    rw [hs, ← hs₁]
    exact hd.reads hbuffer₁ (items.reverse :: pending) hlimit
      (Or.inr (by rw [hs₁]; simpa using hclose))
  | _, s, s', items, r, @DescendsItems.item _ _ s₁ s₂ _ _ _ d _ h hclose hd hrest, hbuffer, limit,
      pending, hlimit => by
    obtain ⟨hbuffer₁, rest, hs, hs₁⟩ := of_peek h hbuffer
    obtain ⟨hempty, hread⟩ := hd.reads hbuffer₁ (items.reverse :: pending) hlimit
      (Or.inr (by rw [hs₁]; simpa using hclose))
    rw [hs, ← hs₁, hread]
    show s'.buffer = [] ∧ readOne limit ((d :: items.reverse) :: pending) s₂.unread = _
    rw [← List.reverse_concat]
    exact hrest.reads (buffer_le_one hempty) pending hlimit

end

/-! ## Reading by descent -/

theorem readExpr_eq (limit : Nat) (s : TokenStream) :
    s.readExpr limit = ((readOne limit [] s.unread).1, ofTokens (readOne limit [] s.unread).2) :=
  rfl

theorem Descends.readExpr {r : Except ReadFault Datum} (h : Descends limit s r s')
    (hbuffer : s.buffer.length ≤ 1) : s.readExpr limit = (r, s') := by
  obtain ⟨hempty, hread⟩ := h.reads hbuffer [] (Nat.zero_add limit) (Or.inl rfl)
  rw [resume_after_nil] at hread
  rw [readExpr_eq, hread, ← eq_ofTokens hempty]

theorem stopsAt_readExpr {r : Except ReadFault Datum} (h : s.readExpr limit = (r, s')) :
    StopsAt limit s.unread r s'.unread := by
  rw [readExpr_eq] at h
  obtain ⟨rfl, rfl⟩ := Prod.mk.inj h
  exact stopsAt_readOne limit s.unread

theorem unread_of_readExpr {d : Datum} (h : s.readExpr limit = (.ok d, s')) :
    ∃ u, s.unread = u ++ s'.unread ∧ Derives u d := by
  cases stopsAt_readExpr h with
  | read hs hu _ => exact ⟨_, hs, hu⟩

theorem length_of_readExpr {d : Datum} (h : s.readExpr limit = (.ok d, s')) :
    s'.unread.length < s.unread.length := by
  obtain ⟨u, hs, hu⟩ := unread_of_readExpr h
  have hpos := List.length_pos_iff.2 hu.ne_nil
  rw [hs, List.length_append]
  omega

/-- An expression that was read leaves fewer tokens, with none looked at. -/
theorem Descends.progress {d : Datum} (h : Descends limit s (.ok d) s')
    (hbuffer : s.buffer.length ≤ 1) :
    s'.buffer.length ≤ 1 ∧ s'.unread.length < s.unread.length := by
  obtain ⟨hempty, -⟩ := h.reads hbuffer [] rfl (Or.inl rfl)
  exact ⟨buffer_le_one hempty, length_of_readExpr (h.readExpr hbuffer)⟩

/-- Items can be descended into where every expression in them can. -/
theorem exists_descendsItems {n : Nat}
    (hall : ∀ s : TokenStream, s.buffer.length ≤ 1 → s.unread.length < n →
      ∀ k, ∃ r s', Descends k s r s') (k : Nat) (s : TokenStream) (hbuffer : s.buffer.length ≤ 1)
    (hn : s.unread.length < n) (items : List Datum) : ∃ r s', DescendsItems k s items r s' := by
  induction hlen : s.unread.length using Nat.strongRecOn generalizing s items with
  | ind m ih =>
    rcases hpeek : s.peek with ⟨_ | token, s₁⟩
    · exact ⟨_, _, .finished hpeek⟩
    · obtain ⟨hbuffer₁, rest, hs, hs₁⟩ := of_peek hpeek hbuffer
      have hsame : s₁.unread = s.unread := hs₁.trans hs.symm
      by_cases hclose : token = Token.closing
      · subst hclose
        exact ⟨_, _, .close hpeek⟩
      · obtain ⟨r, s₂, hd⟩ := hall s₁ hbuffer₁ (by rw [hsame]; exact hn) k
        cases r with
        | error f => exact ⟨_, _, .fault hpeek hclose hd⟩
        | ok d =>
          obtain ⟨hbuffer₂, hshort⟩ := hd.progress hbuffer₁
          rw [hsame] at hshort
          obtain ⟨r, s', hrest⟩ := ih s₂.unread.length (by omega) s₂ hbuffer₂ (by omega) (items ++ [d])
            rfl
          exact ⟨r, s', .item hpeek hclose hd hrest⟩

theorem exists_descends (k : Nat) (s : TokenStream) (hbuffer : s.buffer.length ≤ 1) :
    ∃ r s', Descends k s r s' := by
  induction hlen : s.unread.length using Nat.strongRecOn generalizing k s with
  | ind n ih =>
    rcases hadvance : s.advance with ⟨_ | token, s₁⟩
    · exact ⟨_, _, .finished hadvance⟩
    · obtain ⟨hempty, hs⟩ := of_advance hadvance hbuffer
      by_cases hopen : token = Token.opening
      · subst hopen
        cases k with
        | zero => exact ⟨_, _, .deep hadvance⟩
        | succ k =>
          obtain ⟨r, s', hitems⟩ := exists_descendsItems
            (fun t ht hlt k => ih t.unread.length hlt k t ht rfl) k s₁
            (buffer_le_one hempty) (by rw [← hlen, hs]; exact Nat.lt_succ_self _) []
          exact ⟨r, s', .list hadvance hitems⟩
      · by_cases hclose : token = Token.closing
        · subst hclose
          exact ⟨_, _, .unopened hadvance⟩
        · exact ⟨_, _, .atom hadvance hopen hclose⟩

/-- Reading an expression is recursive descent through `peek` and `advance`. -/
theorem readExpr_eq_iff {r : Except ReadFault Datum} (hbuffer : s.buffer.length ≤ 1) :
    s.readExpr limit = (r, s') ↔ Descends limit s r s' := by
  constructor
  · intro h
    obtain ⟨r₀, s₀, hd⟩ := exists_descends limit s hbuffer
    rw [hd.readExpr hbuffer] at h
    cases h
    exact hd
  · exact fun h => h.readExpr hbuffer

/-! ## Reading all expressions -/

theorem readExpr_congr (h : s.unread = s'.unread) : s.readExpr limit = s'.readExpr limit := by
  rw [readExpr_eq, readExpr_eq, h]

theorem readAll_of_unread_nil (h : s.unread = []) : s.readAll limit = ([], none, ofTokens []) := by
  unfold readAll
  rw [h]
  rfl

theorem readAll_of_error {f : ReadFault} (hne : s.unread ≠ [])
    (h : s.readExpr limit = (.error f, s')) : s.readAll limit = ([], some f, s') := by
  rw [readExpr_eq] at h
  obtain ⟨hf, rfl⟩ := Prod.mk.inj h
  have hread : readOne limit [] s.unread = (.error f, (readOne limit [] s.unread).2) := Prod.ext hf rfl
  unfold readAll
  rw [readMany_eq_readOne _ _ _ (.inr hne), hread]
  rfl

theorem readAll_of_ok {d : Datum} (h : s.readExpr limit = (.ok d, s')) :
    s.readAll limit = (d :: (s'.readAll limit).1, (s'.readAll limit).2) := by
  have hne : s.unread ≠ [] := List.ne_nil_of_length_pos (Nat.zero_lt_of_lt (length_of_readExpr h))
  rw [readExpr_eq] at h
  obtain ⟨hd, rfl⟩ := Prod.mk.inj h
  have hread : readOne limit [] s.unread = (.ok d, (readOne limit [] s.unread).2) := Prod.ext hd rfl
  generalize (readOne limit [] s.unread).2 = rest at hread
  have hmany : readMany limit [] [] s.unread = readMany limit [] [d] rest := by
    rw [readMany_eq_readOne _ _ _ (.inr hne), hread]
  unfold readAll
  rw [hmany, readMany_done [] [d]]
  rfl

theorem DescendsAll.readAll {ds : List Datum} {fault : Option ReadFault}
    (h : DescendsAll limit s ds fault s') (hbuffer : s.buffer.length ≤ 1) :
    s.readAll limit = (ds, fault, s') := by
  induction h with
  | finished hpeek =>
    obtain ⟨hs, rfl⟩ := of_peek_none hpeek
    exact readAll_of_unread_nil hs
  | @fault s s₁ s' token f hpeek hd =>
    obtain ⟨hbuffer₁, rest, hs, hs₁⟩ := of_peek hpeek hbuffer
    refine readAll_of_error (by simp [hs]) ?_
    rw [readExpr_congr (hs.trans hs₁.symm)]
    exact hd.readExpr hbuffer₁
  | @item s s₁ s₂ s' token d ds fault hpeek hd _ ih =>
    obtain ⟨hbuffer₁, rest, hs, hs₁⟩ := of_peek hpeek hbuffer
    have hread := hd.readExpr hbuffer₁
    rw [← readExpr_congr (hs.trans hs₁.symm)] at hread
    rw [readAll_of_ok hread, ih (hd.progress hbuffer₁).1]

theorem exists_descendsAll (limit : Nat) (s : TokenStream) (hbuffer : s.buffer.length ≤ 1) :
    ∃ ds fault s', DescendsAll limit s ds fault s' := by
  induction hlen : s.unread.length using Nat.strongRecOn generalizing s with
  | ind n ih =>
    rcases hpeek : s.peek with ⟨_ | token, s₁⟩
    · exact ⟨_, _, _, .finished hpeek⟩
    · obtain ⟨hbuffer₁, rest, hs, hs₁⟩ := of_peek hpeek hbuffer
      have hsame : s₁.unread = s.unread := hs₁.trans hs.symm
      obtain ⟨r, s₂, hd⟩ := exists_descends limit s₁ hbuffer₁
      cases r with
      | error f => exact ⟨_, _, _, .fault hpeek hd⟩
      | ok d =>
        obtain ⟨hbuffer₂, hshort⟩ := hd.progress hbuffer₁
        rw [hsame] at hshort
        obtain ⟨ds, fault, s', hrest⟩ := ih s₂.unread.length (by omega) s₂ hbuffer₂ rfl
        exact ⟨d :: ds, fault, s', .item hpeek hd hrest⟩

theorem readAll_eq_iff {ds : List Datum} {fault : Option ReadFault} (hbuffer : s.buffer.length ≤ 1) :
    s.readAll limit = (ds, fault, s') ↔ DescendsAll limit s ds fault s' := by
  constructor
  · intro h
    obtain ⟨ds₀, fault₀, s₀, hd⟩ := exists_descendsAll limit s hbuffer
    rw [hd.readAll hbuffer] at h
    cases h
    exact hd
  · exact fun h => h.readAll hbuffer

/-- Reading all expressions takes the tokens of those that it gives, and then what reading one more takes
that fails. -/
theorem unread_of_readAll {ds : List Datum} {fault : Option ReadFault}
    (h : s.readAll limit = (ds, fault, s')) :
    ∃ u vs, s.unread = u ++ vs ∧ DerivesAll u ds ∧
      (fault = none ∧ vs = [] ∧ s'.unread = [] ∨
        ∃ f, fault = some f ∧ vs ≠ [] ∧ (ofTokens vs).readExpr limit = (.error f, s')) := by
  induction hlen : s.unread.length using Nat.strongRecOn generalizing s ds with
  | ind n ih =>
    by_cases hs : s.unread = []
    · rw [readAll_of_unread_nil hs] at h
      cases h
      exact ⟨[], [], hs, .nil, Or.inl ⟨rfl, rfl, rfl⟩⟩
    · rcases hread : s.readExpr limit with ⟨f | d, s₁⟩
      · rw [readAll_of_error hs hread] at h
        cases h
        exact ⟨[], s.unread, rfl, .nil, Or.inr ⟨f, rfl, hs, hread⟩⟩
      · rw [readAll_of_ok hread] at h
        cases h
        obtain ⟨u₁, hu₁, hd⟩ := unread_of_readExpr hread
        obtain ⟨u, vs, hrest, hds, hend⟩ := ih s₁.unread.length
          (by rw [← hlen]; exact length_of_readExpr hread) (s := s₁) rfl rfl
        exact ⟨u₁ ++ u, vs, by rw [hu₁, hrest, List.append_assoc], .cons hd hds, hend⟩

/-! ## Calls -/

/-- What may be asked of a stream; `next` asks for one more of all expressions. -/
inductive Call where
  | peek | advance | readExpr | next | readAll
  deriving Repr, DecidableEq

inductive Reply where
  | token (token : Option String)
  | read (r : Except ReadFault Datum)
  | finished
  | all (data : List Datum) (fault : Option ReadFault)

/-- One call after another, with something that each of them may change. -/
def answers {σ : Type} (perform : Call → σ → Reply × σ) : List Call → σ → List Reply × σ
  | [], x => ([], x)
  | call :: calls, x =>
    let (reply, x) := perform call x
    let (replies, x) := answers perform calls x
    (reply :: replies, x)

theorem answers_cons {σ : Type} (perform : Call → σ → Reply × σ) (call : Call) (calls : List Call)
    (x : σ) :
    answers perform (call :: calls) x =
      ((perform call x).1 :: (answers perform calls (perform call x).2).1,
        (answers perform calls (perform call x).2).2) :=
  rfl

namespace Call

def perform (limit : Nat) (call : Call) (s : TokenStream) : Reply × TokenStream :=
  match call with
  | .peek => (.token s.peek.1, s.peek.2)
  | .advance => (.token s.advance.1, s.advance.2)
  | .readExpr => (.read (s.readExpr limit).1, (s.readExpr limit).2)
  | .next =>
    if s.peek.1.isNone then (.finished, s.peek.2)
    else (.read (s.peek.2.readExpr limit).1, (s.peek.2.readExpr limit).2)
  | .readAll => (.all (s.readAll limit).1 (s.readAll limit).2.1, (s.readAll limit).2.2)

/-- The same calls of a plain list of tokens. -/
def onList (limit : Nat) (call : Call) (ts : List String) : Reply × List String :=
  match call with
  | .peek => (.token ts.head?, ts)
  | .advance => (.token ts.head?, ts.tail)
  | .readExpr => (.read (readOne limit [] ts).1, (readOne limit [] ts).2)
  | .next =>
    if ts.isEmpty then (.finished, ts) else (.read (readOne limit [] ts).1, (readOne limit [] ts).2)
  | .readAll =>
    (.all (readMany limit [] [] ts).data (readMany limit [] [] ts).fault, (readMany limit [] [] ts).rest)

theorem perform_eq (limit : Nat) (call : Call) (s : TokenStream) :
    (call.perform limit s).map id unread = call.onList limit s.unread := by
  cases call with
  | peek => exact Prod.ext (congrArg Reply.token (peek_fst s)) (unread_peek s)
  | advance => exact Prod.ext (congrArg Reply.token (advance_fst s)) (unread_advance s)
  | readExpr => rfl
  | next =>
    have hcond : s.peek.1.isNone = s.unread.isEmpty := by
      rw [peek_fst]
      cases s.unread <;> rfl
    unfold perform onList
    simp only [hcond]
    split
    · exact Prod.ext rfl (unread_peek s)
    · rw [readExpr_congr (unread_peek s)]
      rfl
  | readAll => rfl

theorem buffer_perform (call : Call) (h : s.buffer.length ≤ 1) :
    (call.perform limit s).2.buffer.length ≤ 1 := by
  cases call with
  | peek => exact buffer_peek h
  | advance =>
    show s.advance.2.buffer.length ≤ 1
    rw [buffer_advance h]
    exact Nat.zero_le 1
  | readExpr => exact Nat.zero_le 1
  | next =>
    unfold perform
    simp only
    split
    · exact buffer_peek h
    · exact Nat.zero_le 1
  | readAll => exact Nat.zero_le 1

end Call

theorem suffix_readExpr (limit : Nat) (s : TokenStream) :
    (s.readExpr limit).2.unread <:+ s.unread := by
  rcases hread : s.readExpr limit with ⟨r, s'⟩
  have hstop := stopsAt_readExpr hread
  show s'.unread <:+ s.unread
  generalize s'.unread = rest at hstop ⊢
  cases hstop with
  | read hs => exact ⟨_, hs.symm⟩
  | unclosed => exact List.nil_suffix
  | unopened hs => exact ⟨[Token.closing], hs.symm⟩
  | @deep us _ _ hs => exact ⟨us ++ [Token.opening], by rw [hs, List.append_assoc]; rfl⟩

theorem suffix_readAll (limit : Nat) (s : TokenStream) :
    (s.readAll limit).2.2.unread <:+ s.unread := by
  rcases hread : s.readAll limit with ⟨ds, fault, s'⟩
  obtain ⟨u, vs, hs, -, hend⟩ := unread_of_readAll hread
  rw [hs]
  rcases hend with ⟨-, -, hnil⟩ | ⟨f, -, -, hread⟩
  · rw [hnil]
    exact List.nil_suffix
  · have hsuffix := suffix_readExpr limit (ofTokens vs)
    rw [hread] at hsuffix
    exact hsuffix.trans (List.suffix_append u vs)

theorem Call.suffix_perform (limit : Nat) (call : Call) (s : TokenStream) :
    (call.perform limit s).2.unread <:+ s.unread := by
  cases call with
  | peek => exact (unread_peek s).symm ▸ List.suffix_rfl
  | advance => exact (unread_advance s).symm ▸ List.tail_suffix _
  | readExpr => exact suffix_readExpr limit s
  | next =>
    unfold perform
    simp only
    split
    · exact (unread_peek s).symm ▸ List.suffix_rfl
    · exact unread_peek s ▸ suffix_readExpr limit s.peek.2
  | readAll => exact suffix_readAll limit s

/-- Sequences of calls see and leave the unread tokens as they would see and leave a plain list. -/
theorem answers_perform (calls : List Call) (s : TokenStream) :
    (answers (Call.perform limit) calls s).map id unread =
      answers (Call.onList limit) calls s.unread := by
  induction calls generalizing s with
  | nil => rfl
  | cons call calls ih =>
    obtain ⟨hreplies, hunread⟩ := Prod.ext_iff.1 (ih (call.perform limit s).2)
    rw [answers_cons, answers_cons, ← call.perform_eq limit s]
    exact Prod.ext (congrArg ((call.perform limit s).1 :: ·) hreplies) hunread

theorem answers_congr (calls : List Call) (h : s.unread = s'.unread) :
    (answers (Call.perform limit) calls s).1 = (answers (Call.perform limit) calls s').1 := by
  have hlist : (answers (Call.perform limit) calls s).map id unread =
      (answers (Call.perform limit) calls s').map id unread := by
    rw [answers_perform, answers_perform, h]
  exact (Prod.ext_iff.1 hlist).1

theorem answers_keep (calls : List Call) (h : s.buffer.length ≤ 1) :
    (answers (Call.perform limit) calls s).2.buffer.length ≤ 1 ∧
      (answers (Call.perform limit) calls s).2.unread <:+ s.unread := by
  induction calls generalizing s with
  | nil => exact ⟨h, List.suffix_rfl⟩
  | cons call calls ih =>
    obtain ⟨hbuffer, hsuffix⟩ := ih (call.buffer_perform h)
    exact ⟨hbuffer, hsuffix.trans (call.suffix_perform limit s)⟩

end TokenStream

open TokenStream Grammar in
/-- After any calls a stream holds at most one token in its buffer, its unread tokens are a suffix of all
tokens, and the replies were those of a plain list.  Looking at the next token changes no later reply,
taking it removes this one token; reading an expression is recursive descent by these two, and removes
the shortest expression at the front, one parenthesis that closes nothing, or all tokens if they end too
early.  Reading all expressions does this again and again. -/
theorem stream_is_unread_list (limit : Nat) (tokens : List String) (calls : List Call) :
    let s := (answers (Call.perform limit) calls (ofTokens tokens)).2
    (s.buffer.length ≤ 1 ∧ s.unread <:+ tokens ∧
      ((answers (Call.perform limit) calls (ofTokens tokens)).1, s.unread) =
        answers (Call.onList limit) calls tokens) ∧
    (s.peek.1 = s.unread.head? ∧ s.peek.2.unread = s.unread ∧
      ∀ later, (answers (Call.perform limit) later s.peek.2).1 =
        (answers (Call.perform limit) later s).1) ∧
    (s.advance.1 = s.unread.head? ∧ s.advance.2.unread = s.unread.tail) ∧
    ((∀ r s', s.readExpr limit = (r, s') ↔ Descends limit s r s') ∧
      (∀ d s', s.readExpr limit = (.ok d, s') → ∃ u, s.unread = u ++ s'.unread ∧ Derives u d ∧
        ∀ v e, v <+: s.unread → Derives v e → u <+: v) ∧
      (∀ s', s.readExpr limit = (.error .unmatchedClose, s') →
        s.unread = Token.closing :: s'.unread) ∧
      ∀ s', s.readExpr limit = (.error .unexpectedEnd, s') → s'.unread = []) ∧
    ((∀ ds fault s', s.readAll limit = (ds, fault, s') ↔ DescendsAll limit s ds fault s') ∧
      ∀ ds fault s', s.readAll limit = (ds, fault, s') →
        ∃ u vs, s.unread = u ++ vs ∧ DerivesAll u ds ∧
          (fault = none ∧ vs = [] ∧ s'.unread = [] ∨
            ∃ f, fault = some f ∧ vs ≠ [] ∧ (ofTokens vs).readExpr limit = (.error f, s'))) := by
  intro s
  have hstart : (ofTokens tokens).buffer.length ≤ 1 := Nat.zero_le 1
  obtain ⟨hbuffer, hsuffix⟩ : s.buffer.length ≤ 1 ∧ s.unread <:+ tokens := answers_keep calls hstart
  refine ⟨⟨hbuffer, hsuffix, answers_perform calls (ofTokens tokens)⟩,
    ⟨peek_fst s, unread_peek s, fun later => answers_congr later (unread_peek s)⟩,
    ⟨advance_fst s, unread_advance s⟩,
    ⟨fun r s' => readExpr_eq_iff hbuffer, ?_, ?_, ?_⟩,
    ⟨fun ds fault s' => readAll_eq_iff hbuffer, fun ds fault s' => unread_of_readAll⟩⟩
  · intro d s' hread
    obtain ⟨u, hs, hu⟩ := unread_of_readExpr hread
    refine ⟨u, hs, hu, fun v e hv he => ?_⟩
    obtain ⟨rest, hrest⟩ := hv
    rw [(hu.unique he (hs.symm.trans hrest.symm)).1]
  · intro s' hread
    cases stopsAt_readExpr hread with
    | unopened hs => exact hs
  · intro s' hread
    have hstop := stopsAt_readExpr hread
    generalize s'.unread = rest at hstop ⊢
    cases hstop
    rfl

open TokenStream in
/-- `) ( ) (` after a parenthesis that closes nothing and a look at the next token. -/
theorem stream_is_unread_list_after_fault :
    let s := (answers (Call.perform 1) [.readExpr, .peek] (ofTokens [")", "(", ")", "("])).2
    (s.buffer = ["("] ∧ s.unread <:+ [")", "(", ")", "("]) ∧
      Descends 1 s (.ok (.list [])) (ofTokens ["("]) ∧
      (∀ v e, v <+: ["(", ")", "("] → Grammar.Derives v e → ["(", ")"] <+: v) ∧
      Descends 1 (ofTokens ["("]) (.error .unexpectedEnd) (ofTokens []) ∧
      DescendsAll 1 s [.list []] (some .unexpectedEnd) (ofTokens []) := by
  intro s
  obtain ⟨⟨-, hsuffix, -⟩, -, -, ⟨hdescends, hshortest, -⟩, hall, -⟩ :=
    stream_is_unread_list 1 [")", "(", ")", "("] [.readExpr, .peek]
  obtain ⟨-, -, -, ⟨hend, -⟩, -⟩ := stream_is_unread_list 1 ["("] []
  have hread : s.readExpr 1 = (.ok (.list []), ofTokens ["("]) := rfl
  obtain ⟨u, hu, -, hfirst⟩ := hshortest _ _ hread
  have hu : u = ["(", ")"] := (List.append_cancel_right hu).symm
  exact ⟨⟨rfl, hsuffix⟩, (hdescends _ _).1 hread, hu ▸ hfirst, (hend _ _).1 rfl, (hall _ _ _).1 rfl⟩

end SmallLisp

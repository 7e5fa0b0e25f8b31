import KrakenRuntime.NpuProxy.GateCore
import KrakenRuntime.Lib.Ledger

/- The contract ledger of one armed tenant. The abstract account has a single spender,
   the scheduler thread; it is a holder while a contract run of this tenant object is in
   flight. Ride-along runs move nothing in the account. -/
namespace GateCore
open Runs
variable {Name Req : Type} [DecidableEq Name]

def OwnContract (name : Name) (oid : ℕ) (f : Flight Name Req) : Prop :=
  f.name = name ∧ f.oid = oid ∧ f.extra = false

instance (name : Name) (oid : ℕ) (f : Flight Name Req) : Decidable (OwnContract name oid f) :=
  inferInstanceAs (Decidable (_ ∧ _ ∧ _))

def contractTime (name : Name) (oid : ℕ) : Event Name Req → ℚ
  | .finished f dtUs _ => if OwnContract name oid f then dtUs else 0
  | _ => 0

def longestContract (name : Name) (oid : ℕ) (events : List (Event Name Req)) : ℚ :=
  (events.map (contractTime name oid)).foldl max 0

/-- What may happen to tenant `name` while its ledger is watched: injections of budget and
    everything that is not a command on it or its removal. -/
def Watched (name : Name) : Event Name Req → Prop
  | .unregister other => other ≠ name
  | .cmd other k => other = name → ∃ v : ℚ, 0 ≤ v ∧ k = .timeAdd v
  | _ => True

def holding (name : Name) (oid : ℕ) (flight : Option (Flight Name Req)) : Finset Unit :=
  match flight with
  | none => ∅
  | some f => if OwnContract name oid f then {()} else ∅

/-- The tenant object is registered, armed and limited, and its books are the account's. -/
structure Tracks (cfg : Config) (name : Name) (oid : ℕ) (a : Ledger.Account Unit ℚ)
    (c : Core Name Req) (t : Tenant Req) : Prop where
  registered : c.tenants.get? name = some t
  same : t.oid = oid
  armed : t.armed = true
  limited : t.unlimited = false
  capped : t.creditUs ≤ cfg.creditCapUs
  balance : a.balance = t.creditUs
  granted : a.granted = t.grantedUs
  charged : a.charged = t.chargedUs
  holders : a.holders = holding name oid c.flight

abbrev AccountMove : Ledger.Account Unit ℚ → Ledger.Account Unit ℚ → Prop :=
  Ledger.Move 0 {()}

theorem tracks_of_unchanged {cfg : Config} {name : Name} {oid : ℕ} {a : Ledger.Account Unit ℚ}
    {c c' : Core Name Req} {t : Tenant Req} (h : Tracks cfg name oid a c t)
    (tenants : c'.tenants.get? name = c.tenants.get? name)
    (flight : holding name oid c'.flight = holding name oid c.flight) :
    Tracks cfg name oid a c' t :=
  { h with
    registered := tenants.trans h.registered
    holders := h.holders.trans flight.symm }

theorem register_tracks {cfg : Config} {name : Name} {oid : ℕ} {a : Ledger.Account Unit ℚ}
    {c : Core Name Req} {t : Tenant Req} (h : Tracks cfg name oid a c t) (other : Name) :
    Tracks cfg name oid a (register c other) t := by
  refine tracks_of_unchanged h ?_ rfl
  simp only [register, Dict.get?_setDefault]
  split
  · rename_i same
    subst other
    simp [h.registered]
  · rfl

theorem submit_tracks {cfg : Config} {name : Name} {oid : ℕ} {a : Ledger.Account Unit ℚ}
    {c c' : Core Name Req} {t : Tenant Req} (h : Tracks cfg name oid a c t)
    {other : Name} {req : Req} (sub : submit c other req = some c') :
    ∃ t', Tracks cfg name oid a c' t' := by
  unfold submit at sub
  split at sub
  · cases sub
  · cases sub
    by_cases own : name = other
    · subst other
      refine ⟨{ t with queue := t.queue ++ [req] }, ?_⟩
      exact { h with registered := by simp [h.registered] }
    · exact ⟨t, tracks_of_unchanged h (by simp [own]) rfl⟩

theorem timeAdd_tracks {cfg : Config} (exact_books : cfg.legacyRepay = false) {name : Name}
    {oid : ℕ} {a : Ledger.Account Unit ℚ} {c : Core Name Req} {t : Tenant Req}
    (h : Tracks cfg name oid a c t) {v : ℚ} (nonneg : 0 ≤ v) :
    ∃ a' t', AccountMove a a' ∧ a'.longest = a.longest ∧
      Tracks cfg name oid a' (cmd cfg c name (.timeAdd v)).1 t' := by
  have room := h.capped
  have added : 0 ≤ min (t.creditUs + v) cfg.creditCapUs - t.creditUs := by
    have : t.creditUs ≤ min (t.creditUs + v) cfg.creditCapUs := le_min (by linarith) room
    linarith
  refine ⟨_, timeAdd cfg v t, .grant a _ added, rfl, ?_⟩
  exact
    { registered := by simp [cmd, h.registered, applyCmd]
      same := h.same
      armed := h.armed
      limited := h.limited
      capped := min_le_right _ _
      balance := by simp [timeAdd, h.balance]
      granted := by simp [timeAdd, exact_books, h.granted]
      charged := h.charged
      holders := by simpa [cmd, h.registered] using h.holders }

theorem cmd_other_tracks {cfg : Config} {name : Name} {oid : ℕ} {a : Ledger.Account Unit ℚ}
    {c : Core Name Req} {t : Tenant Req} (h : Tracks cfg name oid a c t) {other : Name}
    (ne : other ≠ name) (k : Cmd) : Tracks cfg name oid a (cmd cfg c other k).1 t := by
  unfold cmd
  split
  · exact h
  · exact tracks_of_unchanged h (by simp [Ne.symm ne]) rfl

theorem mayRun_credit {t : Tenant Req} (armed : t.armed = true) (limited : t.unlimited = false)
    (may : mayRun t = true) : 0 < t.creditUs := by
  simpa [mayRun, armed, limited] using may

theorem selected_tracks {cfg : Config} {name : Name} {oid : ℕ} {a : Ledger.Account Unit ℚ}
    {c c' : Core Name Req} {t : Tenant Req} (h : Tracks cfg name oid a c t)
    (free : c.flight = none) {e : Name × Tenant Req} {extra : Bool} {f : Flight Name Req}
    (chosen : eligible cfg c = some (e, extra)) (pop : popFrom c e extra = some (c', f)) :
    ∃ a' t', (a' = a ∨ AccountMove a a') ∧ a'.longest = a.longest ∧
      Tracks cfg name oid a' c' t' := by
  obtain ⟨rest, queue, fname, foid, fextra, after⟩ := popFrom_spec pop
  have entry : c.tenants.get? e.1 = some e.2 := by
    cases extra with
    | false => exact (mem_ready.mp (mem_candidates.mp (eligible_contract chosen).1).1).1
    | true => exact (mem_ready.mp (eligible_extra chosen).2.2.1).1
  have none_held : a.holders = ∅ := by rw [h.holders, free]; rfl
  by_cases own : e.1 = name
  · have object : e.2 = t := by
      have := h.registered
      rw [← own, entry] at this
      exact Option.some.inj this
    have kept : c'.tenants.get? name = some { t with queue := rest } := by
      rw [after, ← own]
      simp [entry, object]
    cases extra with
    | true =>
      refine ⟨a, { t with queue := rest }, Or.inl rfl, rfl,
        { h with registered := kept, holders := ?_ }⟩
      have other : ¬ OwnContract name oid f := fun held => by simp [OwnContract, fextra] at held
      simp [after, none_held, holding, other]
    | false =>
      have may := (mem_candidates.mp (eligible_contract chosen).1).2
      rw [object] at may
      have above : 0 < a.balance := h.balance ▸ mayRun_credit h.armed h.limited may
      refine ⟨_, { t with queue := rest },
        Or.inr (.enter a () (Finset.mem_singleton_self _) above), rfl,
        { h with registered := kept, holders := ?_ }⟩
      have held : OwnContract name oid f :=
        ⟨fname.trans own, by rw [foid, object]; exact h.same, fextra⟩
      simp [after, none_held, holding, held]
  · refine ⟨a, t, Or.inl rfl, rfl, tracks_of_unchanged h ?_ ?_⟩
    · rw [after]
      simp [Ne.symm own]
    · have other : ¬ OwnContract name oid f := fun held => own (fname.symm.trans held.1)
      simp [after, free, holding, other]

theorem finished_tracks {cfg : Config} (exact_books : cfg.legacyRepay = false) {name : Name}
    {oid : ℕ} {a : Ledger.Account Unit ℚ} {c : Core Name Req} {t : Tenant Req}
    (h : Tracks cfg name oid a c t) {f : Flight Name Req} {dtUs now : ℚ}
    (busy : c.flight = some f) (elapsed : 0 ≤ dtUs) (known : 0 ≤ a.longest) :
    ∃ a' t', (a' = a ∨ AccountMove a a') ∧
      a'.longest = max a.longest (contractTime name oid (.finished f dtUs now)) ∧
      Tracks cfg name oid a' (finish cfg c f dtUs now) t' := by
  have after : (finish cfg c f dtUs now).tenants.get? name =
      some (if f.name = name ∧ t.oid = f.oid then charge cfg f.extra dtUs now t else t) := by
    simp only [finish, Dict.get?_modify, h.registered, Option.map_some]
    by_cases own : name = f.name
    · simp [own]
    · simp [own, Ne.symm own]
  by_cases object : f.name = name ∧ f.oid = oid
  · have mine : f.name = name ∧ t.oid = f.oid := ⟨object.1, h.same.trans object.2.symm⟩
    rw [if_pos mine] at after
    cases ride : f.extra with
    | true =>
      rw [ride] at after
      have other : ¬ OwnContract name oid f := fun held => by simp [OwnContract, ride] at held
      refine ⟨a, charge cfg true dtUs now t, Or.inl rfl, by simp [contractTime, other, known], ?_⟩
      exact
        { registered := after
          same := by simpa [charge, exact_books] using h.same
          armed := by simpa [charge, exact_books] using h.armed
          limited := by simpa [charge, exact_books] using h.limited
          capped := by simpa [charge, exact_books] using h.capped
          balance := by simpa [charge, exact_books] using h.balance
          granted := by simpa [charge, exact_books] using h.granted
          charged := by simpa [charge, exact_books] using h.charged
          holders := by simp [h.holders, busy, holding, other, finish] }
    | false =>
      rw [ride] at after
      have held : OwnContract name oid f := ⟨object.1, object.2, ride⟩
      have owes : () ∈ a.holders := by simp [h.holders, busy, holding, held]
      refine ⟨_, charge cfg false dtUs now t, Or.inr (.charge a () dtUs owes elapsed),
        by simp [contractTime, held], ?_⟩
      have below : t.creditUs - dtUs ≤ cfg.creditCapUs := by have := h.capped; linarith
      exact
        { registered := after
          same := by simpa [charge] using h.same
          armed := by simpa [charge] using h.armed
          limited := by simpa [charge] using h.limited
          capped := by simpa [charge, h.armed, h.limited] using below
          balance := by simp [charge, h.armed, h.limited, h.balance]
          granted := by simpa [charge] using h.granted
          charged := by simp [charge, h.charged]
          holders := by simp [h.holders, busy, holding, held, finish] }
  · have other : ¬ OwnContract name oid f := fun held => object ⟨held.1, held.2.1⟩
    have foreign : ¬ (f.name = name ∧ t.oid = f.oid) := fun both =>
      object ⟨both.1, both.2.symm.trans h.same⟩
    rw [if_neg foreign] at after
    refine ⟨a, t, Or.inl rfl, by simp [contractTime, other, known],
      tracks_of_unchanged h (after.trans h.registered.symm) ?_⟩
    simp [busy, holding, other, finish]

theorem raised_tracks {cfg : Config} {name : Name} {oid : ℕ} {a : Ledger.Account Unit ℚ}
    {c : Core Name Req} {t : Tenant Req} (h : Tracks cfg name oid a c t) {f : Flight Name Req}
    (busy : c.flight = some f) :
    ∃ a', (a' = a ∨ AccountMove a a') ∧ a'.longest = a.longest ∧
      Tracks cfg name oid a' { c with flight := none } t := by
  by_cases held : OwnContract name oid f
  · refine ⟨_, Or.inr (.leave a ()), rfl, { h with holders := ?_ }⟩
    simp [h.holders, busy, holding, held]
  · exact ⟨a, Or.inl rfl, rfl, { h with holders := by simp [h.holders, busy, holding, held] }⟩

/-- One event of the core is at most one move of the account. -/
theorem step_tracks {cfg : Config} (exact_books : cfg.legacyRepay = false) {name : Name}
    {oid : ℕ} {a : Ledger.Account Unit ℚ} {c c' : Core Name Req} {t : Tenant Req}
    (h : Tracks cfg name oid a c t) (known : 0 ≤ a.longest) {ev : Event Name Req}
    (watched : Watched name ev) (step : CoreStep cfg c ev c') :
    ∃ a' t', (a' = a ∨ AccountMove a a') ∧
      a'.longest = max a.longest (contractTime name oid ev) ∧ Tracks cfg name oid a' c' t' := by
  have still : a.longest = max a.longest 0 := (max_eq_left known).symm
  cases step with
  | register => exact ⟨a, t, Or.inl rfl, still, register_tracks h _⟩
  | unregister other =>
    refine ⟨a, t, Or.inl rfl, still, tracks_of_unchanged h ?_ rfl⟩
    have ne : name ≠ other := Ne.symm watched
    simp [unregister, Dict.get?_pop, ne]
  | cmd other k =>
    by_cases own : other = name
    · subst other
      obtain ⟨v, nonneg, rfl⟩ := watched rfl
      obtain ⟨a', t', move, same, tracks⟩ := timeAdd_tracks exact_books h nonneg
      exact ⟨a', t', Or.inr move, same.trans still, tracks⟩
    · exact ⟨a, t, Or.inl rfl, still, cmd_other_tracks h own k⟩
  | submit sub =>
    obtain ⟨t', tracks⟩ := submit_tracks h sub
    exact ⟨a, t', Or.inl rfl, still, tracks⟩
  | idle => exact ⟨a, t, Or.inl rfl, still, h⟩
  | selected free chosen pop =>
    obtain ⟨a', t', move, same, tracks⟩ := selected_tracks h free chosen pop
    exact ⟨a', t', move, same.trans still, tracks⟩
  | finished busy elapsed => exact finished_tracks exact_books h busy elapsed known
  | raised busy =>
    obtain ⟨a', move, same, tracks⟩ := raised_tracks h busy
    exact ⟨a', t, move, same.trans still, tracks⟩

theorem run_tracks {cfg : Config} (exact_books : cfg.legacyRepay = false) {name : Name}
    {oid : ℕ} {c c' : Core Name Req} {events : List (Event Name Req)}
    (run : Run (CoreStep cfg) c events c') (watched : ∀ ev ∈ events, Watched name ev)
    {a : Ledger.Account Unit ℚ} {t : Tenant Req} (h : Tracks cfg name oid a c t)
    (safe : Ledger.Safe 0 {()} a) :
    ∃ a' t', Ledger.Safe 0 {()} a' ∧ Ledger.net a' = Ledger.net a ∧
      a'.longest = (events.map (contractTime name oid)).foldl max a.longest ∧
      Tracks cfg name oid a' c' t' := by
  induction run generalizing a t with
  | nil => exact ⟨a, t, safe, rfl, rfl, h⟩
  | cons first tail ih =>
    obtain ⟨b, u, move, longest, tracks⟩ :=
      step_tracks exact_books h safe.longest_nonneg (watched _ (by simp)) first
    have kept : Ledger.Safe 0 {()} b ∧ Ledger.net b = Ledger.net a := by
      rcases move with rfl | move
      · exact ⟨safe, rfl⟩
      · exact ⟨Ledger.move_safe move safe, Ledger.move_net move⟩
    obtain ⟨a', t', safe', net', longest', tracks'⟩ :=
      ih (fun ev mem => watched ev (List.mem_cons_of_mem _ mem)) tracks kept.1
    refine ⟨a', t', safe', net'.trans kept.2, ?_, tracks'⟩
    rw [longest', longest]
    rfl

/-- The tenant's own books: what it may still spend is what it was given less what it was
    charged; it never holds more than the cap and never owes more than one run. -/
theorem contract_ledger {cfg : Config} (exact_books : cfg.legacyRepay = false)
    {c c' : Core Name Req} {events : List (Event Name Req)} {name : Name} {t : Tenant Req}
    (registered : c.tenants.get? name = some t)
    (armed : t.armed = true) (limited : t.unlimited = false)
    (nonneg : 0 ≤ t.creditUs) (capped : t.creditUs ≤ cfg.creditCapUs)
    (idle : ∀ f, c.flight = some f → ¬ (f.name = name ∧ f.oid = t.oid))
    (run : Run (CoreStep cfg) c events c') (watched : ∀ ev ∈ events, Watched name ev) :
    ∃ t', c'.tenants.get? name = some t' ∧
      t'.creditUs = t.creditUs + (t'.grantedUs - t.grantedUs) - (t'.chargedUs - t.chargedUs) ∧
      t'.creditUs ≤ cfg.creditCapUs ∧
      -longestContract name t.oid events ≤ t'.creditUs ∧
      (t'.grantedUs - t.grantedUs) + t.creditUs - cfg.creditCapUs ≤ t'.chargedUs - t.chargedUs ∧
      t'.chargedUs - t.chargedUs ≤
        (t'.grantedUs - t.grantedUs) + t.creditUs + longestContract name t.oid events := by
  let a : Ledger.Account Unit ℚ := ⟨t.creditUs, t.grantedUs, t.chargedUs, 0, ∅⟩
  have unheld : holding name t.oid c.flight = ∅ := by
    cases flight : c.flight with
    | none => rfl
    | some f =>
      have other : ¬ OwnContract name t.oid f := fun held => idle f flight ⟨held.1, held.2.1⟩
      simp [holding, other]
  have tracks : Tracks cfg name t.oid a c t :=
    ⟨registered, rfl, armed, limited, capped, rfl, rfl, rfl, unheld.symm⟩
  have safe : Ledger.Safe 0 {()} a := ⟨by simp [a], le_refl _, by simpa [a] using nonneg⟩
  obtain ⟨a', t', safe', net, longest, after⟩ := run_tracks exact_books run watched tracks safe
  have bound := Ledger.safe_bound safe'
  have worst : a'.longest = longestContract name t.oid events := longest
  simp only [Finset.card_singleton, Nat.cast_one, one_mul, zero_sub, worst, after.balance] at bound
  have books : t'.creditUs - t'.grantedUs + t'.chargedUs =
      t.creditUs - t.grantedUs + t.chargedUs := by
    simpa [Ledger.net, after.balance, after.granted, after.charged, a] using net
  have cap := after.capped
  exact ⟨t', after.registered, by linarith, cap, bound, by linarith, by linarith⟩

theorem contract_ledger_overdrawn :
    let t : Tenant ℕ := { oid := 0, armed := true, unlimited := false }
    let c : Core ℕ ℕ := ⟨⟨[(0, t)], by simp⟩, 1, none⟩
    let f : Flight ℕ ℕ := ⟨0, 0, 7, false⟩
    let events : List (Event ℕ ℕ) := [.cmd 0 (.timeAdd 50), .submit 0 7, .selected (some f),
      .cmd 0 (.timeAdd 10), .finished f 80 1]
    ∃ c' t', exec (next {}) c events = some c' ∧ c'.tenants.get? 0 = some t' ∧
      t'.creditUs < 0 ∧ -80 ≤ t'.creditUs := by
  intro t c f events
  let c' := (exec (next {}) c events).getD c
  have run : exec (next {}) c events = some c' := by decide +kernel
  have start : c.tenants.get? 0 = some t := rfl
  obtain ⟨t', registered, -, -, bound, -⟩ := contract_ledger rfl start rfl rfl (le_refl _)
    (by decide +kernel) (by intro g h; cases h) (run_of_next run) (by simp [Watched, events])
  have credit : (c'.tenants.get? 0).map Tenant.creditUs = some (-20) := by decide +kernel
  rw [registered, Option.map_some, Option.some.injEq] at credit
  have worst : longestContract 0 t.oid events = 80 := by decide +kernel
  refine ⟨c', t', run, registered, by rw [credit]; decide, ?_⟩
  rw [← worst]
  exact bound

end GateCore

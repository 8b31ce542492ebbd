import Arbexpert.Foundation.WhileLoop

/-!
# Reading the body of a request

`start_arbitrage` collects the chunks of the payload while `try_next` returns `Ok`. The end of the
payload is `Ok(None)`, for which the loop continues. A payload that has ended says so again at the
next call, so only an error takes the loop to the parser.
-/

namespace Arbexpert.Worker

variable {ε : Type*}

/-- The part of a request payload that was not read: its chunks, and the error that follows them
when the payload does not end normally. -/
structure Payload (ε : Type*) where
  chunks : List (List UInt8)
  failure : Option ε
  deriving DecidableEq

/-- The next chunk, `none` at the end, or the error. An exhausted payload stays at its end. -/
def Payload.tryNext : Payload ε → Except ε (Option (List UInt8)) × Payload ε
  | ⟨chunk :: rest, failure⟩ => (.ok (some chunk), ⟨rest, failure⟩)
  | ⟨[], some error⟩ => (.error error, ⟨[], none⟩)
  | ⟨[], none⟩ => (.ok none, ⟨[], none⟩)

/-- The variables of the body loop of `start_arbitrage`. -/
structure BodyState (ε : Type*) where
  payload : Payload ε
  body : List UInt8
  deriving DecidableEq

/-- One iteration of the body loop, its test included. -/
def bodyStep (s : BodyState ε) : Option (BodyState ε) :=
  match s.payload.tryNext with
  | (.error _, _) => none
  -- `let Some(chunk) = chunk else { continue }`
  | (.ok none, rest) => some { s with payload := rest }
  | (.ok (some chunk), rest) => some ⟨rest, s.body ++ chunk⟩

/-- The body that the loop collects, with a bound on its iterations. -/
def readBody (fuel : ℕ) (payload : Payload ε) : Option (List UInt8) :=
  (WhileLoop.run bodyStep fuel ⟨payload, []⟩).map BodyState.body

/-- The body loop ends, and the body is then the concatenation of the chunks of the payload. -/
def Payload.ReadsBody (payload : Payload ε) : Prop :=
  (∃ fuel, (readBody fuel payload).isSome) ∧
    ∀ fuel body, readBody fuel payload = some body → body = payload.chunks.flatten

/-- The loop reads all chunks, one in each iteration. -/
theorem path_chunks (chunks : List (List UInt8)) (failure : Option ε) (body : List UInt8) :
    ∃ visited, WhileLoop.Path bodyStep ⟨⟨chunks, failure⟩, body⟩ visited
      ⟨⟨[], failure⟩, body ++ chunks.flatten⟩ := by
  induction chunks generalizing body with
  | nil =>
    rw [List.flatten_nil, List.append_nil]
    exact ⟨[], .nil _⟩
  | cons chunk rest ih =>
    obtain ⟨visited, hpath⟩ := ih (body ++ chunk)
    rw [List.flatten_cons, ← List.append_assoc]
    exact ⟨_ :: visited, .cons rfl hpath⟩

/-- At the end of a payload the loop continues without a change. -/
theorem not_halts_at_end (body : List UInt8) :
    ¬ WhileLoop.Halts bodyStep (⟨⟨[], none⟩, body⟩ : BodyState ε) := by
  refine WhileLoop.not_halts_of_trap (T := fun s => s = ⟨⟨[], none⟩, body⟩) ?_ rfl
  rintro s rfl
  exact ⟨_, rfl, rfl⟩

/-- The body loop ends exactly on payloads that end with an error. -/
theorem body_halts_iff (payload : Payload ε) :
    WhileLoop.Halts bodyStep ⟨payload, []⟩ ↔ payload.failure.isSome := by
  obtain ⟨chunks, failure⟩ := payload
  obtain ⟨visited, hpath⟩ := path_chunks chunks failure []
  rw [hpath.halts_iff]
  cases failure with
  | none => exact iff_of_false (not_halts_at_end _) (by simp)
  | some error => exact iff_of_true ⟨[], _, .nil _, rfl⟩ rfl

/-- When the loop ends, it has collected all chunks. -/
theorem body_eq_of_readBody {fuel : ℕ} {payload : Payload ε} {body : List UInt8}
    (h : readBody fuel payload = some body) : body = payload.chunks.flatten := by
  obtain ⟨s, hrun, rfl⟩ := Option.map_eq_some_iff.mp h
  obtain ⟨visited, hends⟩ := WhileLoop.ends_of_run hrun
  have hfailure := (body_halts_iff payload).mp ⟨visited, s, hends⟩
  obtain ⟨error, herror⟩ := Option.isSome_iff_exists.mp hfailure
  obtain ⟨visited', hpath⟩ := path_chunks payload.chunks payload.failure []
  have hends' : WhileLoop.Ends bodyStep ⟨payload, []⟩ visited'
      ⟨⟨[], payload.failure⟩, payload.chunks.flatten⟩ := ⟨hpath, by rw [herror]; rfl⟩
  rw [(hends.unique hends').2]

/-- Reading a body ends with all of its chunks exactly when the payload ends with an error. -/
theorem readsBody_iff (payload : Payload ε) :
    payload.ReadsBody ↔ payload.failure.isSome := by
  have hsome : (∃ fuel, (readBody fuel payload).isSome) ↔ payload.failure.isSome := by
    rw [← body_halts_iff, ← WhileLoop.exists_run_isSome_iff]
    simp only [readBody, Option.isSome_map]
  exact ⟨fun h => hsome.mp h.1, fun h => ⟨hsome.mpr h, fun _ _ => body_eq_of_readBody⟩⟩

/-- The loop never ends on a body of two bytes that arrives in one chunk and ends normally. -/
theorem whole_body_not_read : ¬ (⟨[[123, 125]], none⟩ : Payload String).ReadsBody := by
  intro h
  obtain ⟨fuel, hfuel⟩ := h.1
  simp only [readBody, Option.isSome_map] at hfuel
  have hhalts := WhileLoop.exists_run_isSome_iff.mp ⟨fuel, hfuel⟩
  simpa using (body_halts_iff _).mp hhalts

end Arbexpert.Worker

import Rbis.Link.Report
import Rbis.Sched.ControlLoop
import Rbis.Server.Reply

/-! # The response of the server, read by the scheduler

The scheduler reads the arrays of a response at the RNTIs of the UEs of its registry, the server
makes them as long as the branch that answers says: four, the number of UEs of the environment or
of the report, or it returns nothing, raises, or waits forever.  A request is answered with an
object that covers the registry exactly if its branch fits the RNTIs (`covered_iff`). -/

namespace Rbis

open Cxx Fallible

/-! ### The response as JSON -/

def Weights.json : Weights → Json
  | .num w => .num w
  | .list ws => .array (ws.map fun (w : ℕ) => .num w)

def Settings.json (st : Settings) : Json :=
  .object [("v", .num st.v), ("wq", st.wq.json), ("wg", st.wg.json)]

/-- What the HTTP client returns for a response: `None` is `null`, the body of an internal error is
no JSON text, and that of a refused request lists what is wrong with it. -/
def postResult : Response → PostResult
  | .returned (.ok (some st)) => .body (some st.json)
  | .returned (.ok none) => .body (some .null)
  | .returned (.error _) => .body none
  | .refused => .body (some (.object [("detail", .array [])]))

/-- No UE of the registry has an RNTI above `m`. -/
def World.Within (w : World) (m : ℕ) : Prop := ∀ ue ∈ w.allUEs, (w.ues ue.1).rnti ≤ m

/-- The RNTIs of the registry are RNTIs. -/
def World.ValidRntis (w : World) : Prop :=
  ∀ ue ∈ w.allUEs, 1 ≤ (w.ues ue.1).rnti ∧ (w.ues ue.1).rnti < 2 ^ 16

/-- The object has a number `v`, and `wq` and `wg` are both numbers or both arrays with a number
for every UE of the registry. -/
def Json.Covers (actions : Json) (w : World) : Prop :=
  ∃ v wq wg, actions.field "v" = .ok (.num v) ∧ actions.field "wq" = .ok wq ∧
    actions.field "wg" = .ok wg ∧
      ((∃ a b, wq = .num a ∧ wg = .num b) ∨ ∃ as bs, wq = .array as ∧ wg = .array bs ∧
        ∀ ue ∈ w.allUEs, ∃ a b, as[(w.ues ue.1).rnti - 1]? = some (.num a) ∧
          bs[(w.ues ue.1).rnti - 1]? = some (.num b))

theorem entriesOf_of_covers {actions : Json} {w : World} (hr : w.ValidRntis)
    (h : actions.Covers w) {ue : UePtrAndBufferReq} (hue : ue ∈ w.allUEs) :
    (entriesOf actions (w.ues ue.1).rnti).isOk = true := by
  obtain ⟨v, wq, wg, hv, hq, hg, ⟨a, b, rfl, rfl⟩ | ⟨as, bs, rfl, rfl, hentries⟩⟩ := h
  · unfold entriesOf
    rw [hq, hv, hg]
    rfl
  · obtain ⟨hpos, hlt⟩ := hr ue hue
    obtain ⟨a, b, ha, hb⟩ := hentries ue hue
    have hindex : ((w.ues ue.1).rnti + (2 ^ 32 - 1)) % 2 ^ 32 = (w.ues ue.1).rnti - 1 := by omega
    unfold entriesOf
    rw [hq, hv, hg, hindex]
    simp [Json.isArray, Json.index, Json.toDouble, ha, hb, Except.isOk, Except.toBool]

namespace Settings

/-- The settings fit the RNTIs of the registry. -/
def Fits (st : Settings) (w : World) : Prop :=
  match st.wq, st.wg with
  | .num _, .num _ => True
  | .list ws, .list ws' => w.Within ws.length ∧ w.Within ws'.length
  | _, _ => False

theorem fits_of_hasLengths {st : Settings} {q g : ℕ} (h : st.HasLengths q g) (w : World) :
    st.Fits w ↔ w.Within q ∧ w.Within g := by
  obtain ⟨ws, ws', hq, rfl, hg, rfl⟩ := h
  unfold Fits
  rw [hq, hg]

theorem getElem?_json (ws : List ℕ) (i : ℕ) :
    (∃ a, (ws.map fun (x : ℕ) => Json.num x)[i]? = some (.num a)) ↔ i < ws.length := by
  rw [List.getElem?_map]
  constructor
  · rintro ⟨a, h⟩
    by_contra hge
    rw [List.getElem?_eq_none (by omega)] at h
    cases h
  · intro h
    rw [List.getElem?_eq_getElem h]
    exact ⟨_, rfl⟩

/-- The object of the settings covers the registry exactly if the settings fit. -/
theorem covers_json (st : Settings) {w : World} (hr : w.ValidRntis) :
    st.json.Covers w ↔ st.Fits w := by
  have hv : st.json.field "v" = .ok (.num st.v) := rfl
  have hq : st.json.field "wq" = .ok st.wq.json := rfl
  have hg : st.json.field "wg" = .ok st.wg.json := rfl
  have hiff : st.json.Covers w ↔ (∃ a b, st.wq.json = .num a ∧ st.wg.json = .num b) ∨
      ∃ as bs, st.wq.json = .array as ∧ st.wg.json = .array bs ∧ ∀ ue ∈ w.allUEs,
        ∃ a b, as[(w.ues ue.1).rnti - 1]? = some (.num a) ∧
          bs[(w.ues ue.1).rnti - 1]? = some (.num b) := by
    constructor
    · rintro ⟨v, wq, wg, _, hq', hg', h⟩
      rw [hq] at hq'
      rw [hg] at hg'
      cases hq'
      cases hg'
      exact h
    · exact fun h => ⟨_, _, _, hv, hq, hg, h⟩
  rw [hiff]
  unfold Fits
  cases st.wq with
  | num a =>
      cases st.wg with
      | num b => exact iff_of_true (Or.inl ⟨_, _, rfl, rfl⟩) trivial
      | list ws' =>
          refine iff_of_false ?_ id
          rintro (⟨_, _, _, h⟩ | ⟨_, _, h, _⟩)
          · cases h
          · cases h
  | list ws =>
      cases st.wg with
      | num b =>
          refine iff_of_false ?_ id
          rintro (⟨_, _, h, _⟩ | ⟨_, _, _, h, _⟩)
          · cases h
          · cases h
      | list ws' =>
          dsimp only
          have hentry : ∀ ue ∈ w.allUEs, ∀ l : List ℕ,
              (∃ a, (l.map fun (x : ℕ) => Json.num x)[(w.ues ue.1).rnti - 1]? = some (.num a)) ↔
                (w.ues ue.1).rnti ≤ l.length := by
            intro ue hue l
            have hpos := (hr ue hue).1
            rw [getElem?_json]
            omega
          constructor
          · rintro (⟨_, _, h, _⟩ | ⟨as, bs, ha, hb, h⟩)
            · cases h
            · cases ha
              cases hb
              refine ⟨fun ue hue => ?_, fun ue hue => ?_⟩
              · obtain ⟨a, _, ha, _⟩ := h ue hue
                exact (hentry ue hue ws).mp ⟨a, ha⟩
              · obtain ⟨_, b, _, hb⟩ := h ue hue
                exact (hentry ue hue ws').mp ⟨b, hb⟩
          · rintro ⟨h, h'⟩
            refine Or.inr ⟨_, _, rfl, rfl, fun ue hue => ?_⟩
            obtain ⟨a, ha⟩ := (hentry ue hue ws).mpr (h ue hue)
            obtain ⟨b, hb⟩ := (hentry ue hue ws').mpr (h' ue hue)
            exact ⟨a, b, ha, hb⟩

end Settings

/-- The response covers the registry, and `SetDppWeights` receives numbers. -/
structure Covered (w : World) (res : PostResult) : Prop where
  covers : ∃ actions, res = .body (some actions) ∧ actions.Covers w
  numbers : ∀ actions, res = .body (some actions) → ∀ ue ∈ w.allUEs,
    (entriesOf actions (w.ues ue.1).rnti).isOk = true

/-- The settings that are returned fit the registry. -/
def Returns (w : World) (r : Except ServerError (Option Settings)) : Prop :=
  ∃ st, r = .ok (some st) ∧ st.Fits w

theorem not_covered {w : World} {actions : Json} (h : actions.field "v" = .ok .null) :
    ¬ Covered w (.body (some actions)) := by
  rintro ⟨⟨_, hactions, v, _, _, hv, _⟩, _⟩
  cases hactions
  rw [h] at hv
  cases hv

theorem covered_iff_returns {w : World} (hr : w.ValidRntis)
    (r : Except ServerError (Option Settings)) :
    Covered w (postResult (.returned r)) ↔ Returns w r := by
  constructor
  · intro h
    cases r with
    | error e =>
        obtain ⟨_, hactions, _⟩ := h.covers
        cases hactions
    | ok returned =>
        cases returned with
        | none => exact absurd h (not_covered rfl)
        | some st =>
            obtain ⟨_, hactions, hcovers⟩ := h.covers
            cases hactions
            exact ⟨st, rfl, (st.covers_json hr).mp hcovers⟩
  · rintro ⟨st, rfl, hfits⟩
    have hcovers := (st.covers_json hr).mpr hfits
    refine ⟨⟨_, rfl, hcovers⟩, fun actions hactions ue hue => ?_⟩
    cases hactions
    exact entriesOf_of_covers hr hcovers hue

/-! ### The branches -/

theorem World.Within.mono {w : World} {m n : ℕ} (h : w.Within m) (hle : m ≤ n) : w.Within n :=
  fun ue hue => (h ue hue).trans hle

theorem returns_ok (w : World) (st : Settings) : Returns w (.ok (some st)) ↔ st.Fits w := by
  constructor
  · rintro ⟨_, h, hfits⟩
    cases h
    exact hfits
  · exact fun h => ⟨st, rfl, h⟩

theorem returns_map {w : World} {r : Except ServerError Settings} :
    Returns w (r >>= fun st => .ok (some st)) ↔ ∃ st, r = .ok st ∧ st.Fits w := by
  constructor
  · rintro ⟨_, h, hfits⟩
    obtain ⟨st, hst, h⟩ := bind_eq_ok.mp h
    cases h
    exact ⟨_, hst, hfits⟩
  · rintro ⟨st, rfl, hfits⟩
    exact ⟨st, rfl, hfits⟩

theorem not_returns_error {w : World} {e : ServerError} : ¬ Returns w (.error e) := by
  rintro ⟨_, h, _⟩
  cases h

/-- The entries of the arrays of an action of the policy, in an environment of `numUes` UEs. -/
def Policy.entries (π : Policy) (numUes : ℕ) : ℕ :=
  if π.cls.isDQN then numUes else min numUes (2 * π.numUes - numUes)

theorem within_entries {π : Policy} (h : π.cls.isDQN = false) (w : World) (n : ℕ) :
    w.Within (min n (2 * π.numUes)) ∧ w.Within (min n (2 * π.numUes - n)) ↔
      w.Within (π.entries n) := by
  unfold Policy.entries
  rw [h, if_neg Bool.false_ne_true]
  refine ⟨fun hw => hw.2, fun hw => ⟨hw.mono ?_, hw⟩⟩
  omega

/-- The actions of the policy are of the kind the algorithm and the environment work with, and
have entries for the RNTIs. -/
def Policy.Fits (π : Policy) (alg : Algorithm) (e : EnvObject) (w : World) : Prop :=
  π.cls.isDQN = decide (alg = .DQN) ∧ (alg = .DQN → e.cls.isDQN = true) ∧
    w.Within (π.entries e.numUes)

theorem returns_predicted {π : Policy} {alg : Algorithm} {e : EnvObject} {w : World} {a : Action}
    (ha : (π.cls.actionSpace π.numUes).Contains a) :
    (∃ st, Server.predicted alg e a = .ok st ∧ st.Fits w) ↔ π.Fits alg e w := by
  unfold Policy.Fits Server.predicted
  obtain ⟨hd, i, rfl⟩ | ⟨hd, xs, rfl, hlen⟩ := action_cases ha
  · cases alg with
    | PPO => simp [hd]
    | DQN =>
        cases he : e.cls.isDQN with
        | false => simp
        | true =>
            obtain ⟨st, hst, hl⟩ := hasLengths_decoded he e.numUes i
            have hentries : π.entries e.numUes = e.numUes := if_pos hd
            simp only [hd, hst, if_true, hentries]
            simp [Settings.fits_of_hasLengths hl]
  · cases alg with
    | PPO =>
        obtain ⟨st, hst, hl⟩ := hasLengths_ofArray (n := e.numUes) hlen
        simp only [hd, hst]
        simp [Settings.fits_of_hasLengths hl, within_entries hd]
    | DQN =>
        cases he : e.cls.isDQN with
        | false => simp
        | true => simp [hd, Action.settings, he]

/-- In training: the environment has an action of the policy, of its own kind and with entries
for the RNTIs, or it is a DQN environment without an action and the report has enough UEs. -/
def Surroundings.Trains (x : Surroundings) (alg : Algorithm) (e : EnvObject) (numMcs : ℕ)
    (w : World) : Prop :=
  match x.action with
  | none => alg = .DQN ∧ e.cls.isDQN = true ∧ w.Within numMcs
  | some _ => x.policy.cls.isDQN = e.cls.isDQN ∧ w.Within (x.policy.entries e.numUes)

theorem trained_of_getAction {alg : Algorithm} {env : Env} {xs : List ℕ} {numMcs : ℕ}
    (h : env.getAction = .ok (some xs)) :
    Server.trained alg env numMcs = Settings.ofArray env.numUes xs := by
  unfold Server.trained
  rw [h, ok_bind]
  cases alg with
  | PPO => rfl
  | DQN => rfl

theorem trained_of_error {alg : Algorithm} {env : Env} {e : ServerError} {numMcs : ℕ}
    (h : env.getAction = .error e) : Server.trained alg env numMcs = .error e := by
  unfold Server.trained
  rw [h, error_bind]

theorem returns_trained {x : Surroundings} {alg : Algorithm} {e : EnvObject} {w : World}
    {numMcs : ℕ} (state : Option (List ℤ)) (reward : Dbl) :
    (∃ st, Server.trained alg (Server.envRead x e state reward) numMcs = .ok st ∧ st.Fits w) ↔
      x.Trains alg e numMcs w := by
  unfold Surroundings.Trains
  cases ha : x.action with
  | none =>
      cases he : e.cls.isDQN with
      | false =>
          have hget : (Server.envRead x e state reward).getAction = .error .attributeError := by
            simp [Env.getAction, Server.envRead, he, ha]
          rw [trained_of_error hget]
          simp
      | true =>
          have hget : (Server.envRead x e state reward).getAction = .ok none := by
            simp [Env.getAction, Server.envRead, he, ha]
          cases alg with
          | PPO => simp [Server.trained, hget, throw, throwThe, MonadExceptOf.throw]
          | DQN => simp [Server.trained, hget, Settings.fits_of_hasLengths (hasLengths_zero _)]
  | some a =>
      obtain ⟨hd, i, rfl⟩ | ⟨hd, xs, rfl, hlen⟩ := action_cases (x.action_mem a ha)
      · cases he : e.cls.isDQN with
        | false =>
            have hget : (Server.envRead x e state reward).getAction = .error .indexError := by
              simp [Env.getAction, Server.envRead, he, ha]
            rw [trained_of_error hget]
            simp [hd]
        | true =>
            have hget : (Server.envRead x e state reward).getAction =
                .ok (some ([(e.cls.decodeAction e.numUes i).1] ++
                  (e.cls.decodeAction e.numUes i).2.1 ++ (e.cls.decodeAction e.numUes i).2.2)) := by
              simp [Env.getAction, Server.envRead, he, ha]
            obtain ⟨st, hst, hl⟩ := hasLengths_decoded he e.numUes i
            have hentries : x.policy.entries e.numUes = e.numUes := if_pos hd
            unfold Action.settings at hst
            dsimp only at hst
            rw [if_pos he] at hst
            have hcut : Settings.ofArray (Server.envRead x e state reward).numUes _ = .ok st :=
              (Settings.ofArray_decoded e.cls e.numUes i).trans hst
            rw [trained_of_getAction hget, hcut, hentries]
            simp [hd, Settings.fits_of_hasLengths hl]
      · cases he : e.cls.isDQN with
        | false =>
            have hget : (Server.envRead x e state reward).getAction = .ok (some xs) := by
              simp [Env.getAction, Server.envRead, he, ha]
            obtain ⟨st, hst, hl⟩ := hasLengths_ofArray (n := e.numUes) hlen
            have hcut : Settings.ofArray (Server.envRead x e state reward).numUes xs = .ok st := hst
            rw [trained_of_getAction hget, hcut]
            simp [hd, Settings.fits_of_hasLengths hl, within_entries hd]
        | true =>
            have hget : (Server.envRead x e state reward).getAction = .error .typeError := by
              simp [Env.getAction, Server.envRead, he, ha]
            rw [trained_of_error hget]
            simp [hd]

/-! ### The condition -/

/-- The components of a state vector for `k` UEs. -/
def stateLength (envType : String) (k : ℕ) : Option ℕ :=
  if envType = "ISAC" then some (4 * k) else if envType = "Basic" then some (3 * k) else none

theorem length_stateVector_eq (envType : String) (mcs : List ℤ) :
    (stateVector envType mcs).map List.length = stateLength envType mcs.length := by
  unfold stateVector stateLength
  dsimp only
  split
  · simp
    omega
  · split
    · simp
      omega
    · rfl

/-- The report has the obstacle flags that are read for this `env_type`. -/
def ObstaclesGiven (envType : String) (req : InferRequest) : Prop :=
  envType = "ISAC" ∨ envType = "Test" → 4 ≤ req.closeToObstacle.length

theorem length_of_foldlM {obs : List ℤ} {l : List ℕ} {mcs mcs' : List ℤ}
    (h : l.foldlM (encodeMcsAt obs) mcs = .ok mcs') : mcs'.length = mcs.length := by
  refine foldlM_ok (P := fun b : List ℤ => b.length = mcs.length) ?_ rfl h
  intro i _ b c hb hc
  exact (length_of_encodeMcsAt hc).trans hb

theorem length_of_encodeMcs {envType : String} {req : InferRequest} {mcs : List ℤ}
    (h : encodeMcs envType req = .ok mcs) : mcs.length = req.mcs.length := by
  unfold encodeMcs at h
  split at h
  · exact length_of_foldlM h
  · cases h
    rfl

theorem encodeMcs_isOk_iff {envType : String} {req : InferRequest} (h : 4 ≤ req.mcs.length) :
    (∃ mcs, encodeMcs envType req = .ok mcs) ↔ ObstaclesGiven envType req := by
  unfold encodeMcs ObstaclesGiven
  split
  · next hi =>
      constructor
      · rintro ⟨mcs, hmcs⟩ _
        have hsplit : ([0, 1, 2] ++ [3]).foldlM (encodeMcsAt req.closeToObstacle) req.mcs =
            .ok mcs := hmcs
        rw [List.foldlM_append] at hsplit
        obtain ⟨b, hb, hlast⟩ := bind_eq_ok.mp hsplit
        rw [List.foldlM_cons] at hlast
        obtain ⟨c, hc, _⟩ := bind_eq_ok.mp hlast
        have hlen : b.length = req.mcs.length := length_of_foldlM hb
        exact exists_encodeMcsAt.mp ⟨c, hc⟩ (by omega)
      · intro hobs
        have hflags := hobs hi
        have hread : ∀ i ∈ [0, 1, 2, 3], i < req.mcs.length → i < req.closeToObstacle.length := by
          intro i hi' _
          simp only [List.mem_cons, List.not_mem_nil, or_false] at hi'
          omega
        obtain ⟨mcs, hmcs, _⟩ := foldlM_encodeMcsAt_ok hread
        exact ⟨mcs, hmcs⟩
  · next hi => exact ⟨fun _ h => absurd h hi, fun _ => ⟨_, rfl⟩⟩

/-- The number of UEs a response in the transition mode is made for. -/
def Server.transitionUes (s : Server) (numMcs : ℕ) : ℕ :=
  match s.env with
  | some env => if s.modelType = some "PPO" then env.numUes else numMcs
  | none => numMcs

/-- `ppo` finds the objects it uses, and the model that is saved at one of the steps is there. -/
structure Server.Consultable (o : Options) (s : Server) : Prop where
  condition : s.condition ≠ none
  predicts : o.predict = true → s.model ≠ none
  saves : s.csvIndex = 20000 → s.model ≠ none

/-- The learner answers with entries for the RNTIs. -/
def Server.LearnerFits (o : Options) (x : Surroundings) (s : Server) (alg : Algorithm)
    (e : EnvObject) (numMcs : ℕ) (w : World) : Prop :=
  if o.predict = true then
    stateLength s.envType numMcs =
        some (x.policy.cls.observationSpace x.policy.numUes).length ∧ x.policy.Fits alg e w
  else x.Trains alg e numMcs w

/-- The branch that answers the request fits the RNTIs of the registry; in training, a thread waits
in `env.step` for the handler to notify it. -/
def Server.Answerable (o : Options) (x : Surroundings) (s : Server) (req : InferRequest)
    (w : World) : Prop :=
  if req.mcs.length < 4 then w.Within 4
  else ObstaclesGiven s.envType req ∧
    if s.transitionMode = true then w.Within (s.transitionUes req.mcs.length)
    else
      match s.modelType.bind Algorithm.ofName with
      | some alg => s.Consultable o ∧ (o.predict = false → s.waitingThreads ≠ []) ∧
          ∃ e, s.env = some e ∧ s.LearnerFits o x alg e req.mcs.length w
      | none =>
          if s.modelType = some "Random" then ∃ e, s.env = some e ∧ w.Within e.numUes
          else s.modelType = some "Static" ∧
            (s.envType = "Test" ∨ s.envType ∈ staticTypes.map Prod.fst)

namespace Server

variable {o : Options} {x : Surroundings} {s : Server} {req : InferRequest} {w : World}

/-- A learner's branch. -/
theorem returns_ppo {alg : Algorithm} {e : EnvObject} {mcs : List ℤ} {reward : Dbl} {numMcs : ℕ}
    (ha : s.modelType.bind Algorithm.ofName = some alg) (he : s.env = some e)
    (hlen : mcs.length = numMcs) :
    Returns w (s.returned o x numMcs (.ppo (stateVector s.envType mcs) reward)) ↔
      s.LearnerFits o x alg e numMcs w := by
  unfold returned LearnerFits
  dsimp only
  rw [ha, he]
  dsimp only
  by_cases hp : o.predict = true
  · rw [if_pos hp, if_pos hp, ← hlen, ← length_stateVector_eq, ← x.policy.accepts]
    cases hpred : x.policy.predict (stateVector s.envType mcs) with
    | error err =>
        rw [error_bind]
        exact iff_of_false not_returns_error fun h => by cases h.1
    | ok a =>
        rw [ok_bind, ← returns_predicted (x.policy.predict_mem _ _ hpred)]
        exact returns_map.trans (and_iff_right rfl).symm
  · rw [if_neg hp, if_neg hp, ← returns_trained (stateVector s.envType mcs) reward]
    exact returns_map

theorem returns_static (s : Server) (mcs : ℤ) (k : ℕ) :
    Returns w (s.returned o x k (.static mcs)) ↔
      s.envType = "Test" ∨ s.envType ∈ staticTypes.map Prod.fst := by
  unfold returned staticTuning
  dsimp only
  by_cases ht : s.envType = "Test"
  · rw [if_pos ht, returns_ok]
    exact iff_of_true trivial (Or.inl ht)
  · rw [if_neg ht]
    cases hl : staticTypes.lookup s.envType with
    | none =>
        refine iff_of_false ?_ ?_
        · rintro ⟨_, h, _⟩
          cases h
        · rintro (h | h)
          · exact ht h
          · obtain ⟨p, hp, heq⟩ := List.mem_map.mp h
            have hne := List.lookup_eq_none_iff.mp hl p hp
            rw [heq] at hne
            simp at hne
    | some e =>
        rw [Option.map_some, returns_ok]
        refine iff_of_true trivial (Or.inr ?_)
        obtain ⟨l₁, l₂, hsplit, _⟩ := List.lookup_eq_some_iff.mp hl
        rw [hsplit]
        simp

theorem inferTransition_answer (mcs : List ℤ) (s : Server) :
    (s.inferTransition mcs).2 = .ok (.transition (s.transitionUes mcs.length)) := by
  have hsame : ∀ t : Server, t.env = s.env → t.modelType = s.modelType →
      t.transitionUes mcs.length = s.transitionUes mcs.length := by
    intro t henv hmt
    unfold transitionUes
    rw [henv, hmt]
  unfold inferTransition
  dsimp only
  refine congrArg (fun n => Except.ok (Branch.transition n)) (hsame _ ?_ ?_)
  · split
    · rfl
    · rfl
  · split
    · rfl
    · rfl

theorem inferTrain_answer (mcs : List ℤ) (reward : Dbl) (s : Server) :
    (s.inferTrain o mcs reward).2 =
      if s.csvIndex = 20000 ∧ s.modelType.bind Algorithm.ofName ≠ none ∧ s.model = none then
        .error .attributeError
      else s.answerOf o mcs reward := by
  unfold inferTrain
  split
  · rfl
  · rfl

theorem inferTrain_counter (mcs : List ℤ) (reward : Dbl) (c : ℤ) (s : Server) :
    (({ s with stepsCounter := c } : Server).inferTrain o mcs reward).2 =
      (s.inferTrain o mcs reward).2 := by
  rw [inferTrain_answer, inferTrain_answer]
  rfl

/-- A learner is consulted, or an exception is raised. -/
theorem inferTrain_learner {alg : Algorithm} (ha : s.modelType.bind Algorithm.ofName = some alg)
    (mcs : List ℤ) (reward : Dbl) :
    (s.Consultable o ∧ s.env ≠ none ∧
      (s.inferTrain o mcs reward).2 = .ok (.ppo (stateVector s.envType mcs) reward)) ∨
    (¬ (s.Consultable o ∧ s.env ≠ none) ∧ ∃ e, (s.inferTrain o mcs reward).2 = .error e) := by
  rw [inferTrain_answer]
  by_cases hsave : s.csvIndex = 20000 ∧ s.model = none
  · rw [if_pos ⟨hsave.1, by rw [ha]; exact Option.some_ne_none alg, hsave.2⟩]
    exact Or.inr ⟨fun h => h.1.saves hsave.1 hsave.2, _, rfl⟩
  · rw [if_neg fun h => hsave ⟨h.1, h.2.2⟩]
    unfold answerOf
    rw [ha]
    unfold consult
    dsimp only
    cases hc : s.condition with
    | none => exact Or.inr ⟨fun h => h.1.condition hc, _, rfl⟩
    | some c =>
        cases he : s.env with
        | none => exact Or.inr ⟨fun h => h.2 rfl, _, rfl⟩
        | some e =>
            dsimp only
            by_cases hm : s.model = none
            · by_cases hp : o.predict = true
              · rw [if_pos (by simp [hp, hm])]
                exact Or.inr ⟨fun h => h.1.predicts hp hm, _, rfl⟩
              · rw [if_neg (by simp [hp])]
                refine Or.inl ⟨⟨?_, fun h => absurd h hp, fun h => absurd ⟨h, hm⟩ hsave⟩, ?_, rfl⟩
                · rw [hc]
                  exact Option.some_ne_none c
                · exact Option.some_ne_none e
            · rw [if_neg (by simp [hm])]
              refine Or.inl ⟨⟨?_, fun _ => hm, fun _ => hm⟩, Option.some_ne_none e, rfl⟩
              rw [hc]
              exact Option.some_ne_none c

theorem not_consults {branch : Branch} (h : ∀ state reward, branch ≠ .ppo state reward) :
    ¬ Service.Consults o (.ok branch) := by
  rintro ⟨_, state, reward, heq⟩
  exact h state reward (Except.ok.inj heq)

/-- Outside of the transition mode, for a condition `W` on the wait of `ppo`. -/
theorem returns_train (s : Server) {mcs : List ℤ} {k : ℕ} (hlen : mcs.length = k)
    (reward : Dbl) (W : Prop) :
    (Service.Consults o (s.inferTrain o mcs reward).2 → W) ∧
      Returns w ((s.inferTrain o mcs reward).2 >>= fun branch => s.returned o x k branch) ↔
      match s.modelType.bind Algorithm.ofName with
      | some alg => s.Consultable o ∧ (o.predict = false → W) ∧
          ∃ e, s.env = some e ∧ s.LearnerFits o x alg e k w
      | none =>
          if s.modelType = some "Random" then ∃ e, s.env = some e ∧ w.Within e.numUes
          else s.modelType = some "Static" ∧
            (s.envType = "Test" ∨ s.envType ∈ staticTypes.map Prod.fst) := by
  cases ha : s.modelType.bind Algorithm.ofName with
  | some alg =>
      dsimp only
      obtain ⟨hc, henv, hans⟩ | ⟨hno, err, hans⟩ := inferTrain_learner (o := o) ha mcs reward
      · obtain ⟨e, he⟩ := Option.ne_none_iff_exists'.mp henv
        rw [hans, ok_bind, returns_ppo ha he hlen, and_iff_right hc]
        refine and_congr (imp_congr_left ?_) ?_
        · exact ⟨fun h => h.1, fun hp => ⟨hp, _, _, rfl⟩⟩
        · constructor
          · exact fun h => ⟨e, he, h⟩
          · rintro ⟨e', he', h⟩
            rw [he] at he'
            cases he'
            exact h
      · rw [hans, error_bind]
        refine iff_of_false (fun h => not_returns_error h.2) ?_
        rintro ⟨hc, _, e, he, _⟩
        exact hno ⟨hc, by rw [he]; exact Option.some_ne_none e⟩
  | none =>
      dsimp only
      rw [inferTrain_answer, if_neg fun h => h.2.1 ha]
      unfold answerOf
      rw [ha]
      dsimp only
      by_cases hrandom : s.modelType = some "Random"
      · have hno : Service.Consults o (.ok Branch.random) → W :=
          fun h => absurd h (not_consults nofun)
        rw [if_pos hrandom, if_pos hrandom, ok_bind, and_iff_right hno]
        unfold returned
        dsimp only
        cases he : s.env with
        | none =>
            refine iff_of_false not_returns_error ?_
            rintro ⟨e, h, _⟩
            cases h
        | some e =>
            dsimp only
            rw [returns_ok, Settings.fits_of_hasLengths (hasLengths_randomTuning x e.numUes)]
            constructor
            · exact fun h => ⟨e, rfl, h.1⟩
            · rintro ⟨e', h, hw⟩
              cases h
              exact ⟨hw, hw⟩
      · rw [if_neg hrandom, if_neg hrandom]
        by_cases hstatic : s.modelType = some "Static"
        · have hno : Service.Consults o (.ok (Branch.static (mcs.headD 0))) → W :=
            fun h => absurd h (not_consults nofun)
          rw [if_pos hstatic, ok_bind, returns_static, and_iff_right hno, and_iff_right hstatic]
        · rw [if_neg hstatic, ok_bind]
          refine iff_of_false ?_ fun h => hstatic h.1
          rintro ⟨_, _, h, _⟩
          cases h

/-- **The response of every branch**, for a thread that waits in training. -/
theorem returns_iff (o : Options) (x : Surroundings) (s : Server) (req : InferRequest)
    (w : World) :
    (Service.Consults o (s.infer o req).2 → s.waitingThreads ≠ []) ∧
      Returns w ((s.infer o req).2 >>= s.returned o x req.mcs.length) ↔
      s.Answerable o x req w := by
  unfold Answerable
  by_cases h4 : req.mcs.length < 4
  · have hno : Service.Consults o (.ok Branch.default) → s.waitingThreads ≠ [] :=
      fun h => absurd h (not_consults nofun)
    rw [if_pos h4, infer_few h4, ok_bind, and_iff_right hno]
    refine (returns_ok w _).trans ?_
    rw [Settings.fits_of_hasLengths (hasLengths_zero 4)]
    exact and_self_iff
  · rw [if_neg h4, ← encodeMcs_isOk_iff (by omega)]
    unfold infer
    rw [if_neg h4]
    cases henc : encodeMcs s.envType req with
    | error e =>
        refine iff_of_false (fun h => not_returns_error h.2) ?_
        rintro ⟨⟨_, h⟩, _⟩
        cases h
    | ok mcs =>
        have hlen := length_of_encodeMcs henc
        have hok : ∃ mcs', (Except.ok mcs : Except ServerError (List ℤ)) = .ok mcs' := ⟨mcs, rfl⟩
        dsimp only
        rw [and_iff_right hok]
        by_cases ht : s.transitionMode = true
        · have hno : ∀ n, Service.Consults o (.ok (Branch.transition n)) → s.waitingThreads ≠ [] :=
            fun _ h => absurd h (not_consults nofun)
          rw [if_pos ht, if_pos ht, inferTransition_answer, ok_bind, and_iff_right (hno _)]
          refine (returns_ok w _).trans ?_
          rw [Settings.fits_of_hasLengths (hasLengths_zero _), hlen]
          exact and_self_iff
        · rw [if_neg ht, if_neg ht]
          rw [inferTrain_counter]
          exact returns_train s hlen req.reward _

end Server

/-- **Response coverage.** A request to a free event loop is answered with an object that covers
the registry exactly if its reward is a number and the branch that answers fits the RNTIs. -/
theorem covered_iff (o : Options) (x : Surroundings) (s : Service) (req : InferRequest) (w : World)
    (hr : w.ValidRntis) (hs : s.loop = .free) :
    s.Responds o x req (fun r => Covered w (postResult r)) ↔
      req.reward ≠ .undef ∧ s.server.Answerable o x req w := by
  rw [Service.responds_iff hs]
  by_cases hreward : req.reward = .undef
  · rw [if_pos hreward]
    exact iff_of_false (not_covered rfl) fun h => h.1 hreward
  · rw [if_neg hreward, covered_iff_returns hr, and_iff_right hreward]
    exact Server.returns_iff o x s.server req w

/-- The action with all settings zero. -/
def EnvClass.zeroAction (cls : EnvClass) (numUes : ℕ) : Action :=
  if cls.isDQN then .index 0
  else .multi ([0] ++ List.replicate numUes 0 ++ List.replicate numUes 0)

theorem EnvClass.contains_zeroAction (cls : EnvClass) (numUes : ℕ) :
    (cls.actionSpace numUes).Contains (cls.zeroAction numUes) := by
  have hz : ∀ m : ℕ, 0 < m →
      List.Forall₂ (fun x b : ℕ => x < b) (List.replicate numUes 0) (List.replicate numUes m) := by
    intro m hm
    have hrep := forall₂_replicate (R := fun x b : ℕ => x < b) (b := m)
      (l := List.replicate numUes 0) fun x hx => by
        rw [List.eq_of_mem_replicate hx]
        exact hm
    rw [List.length_replicate] at hrep
    exact hrep
  have hv : 0 < cls.vStates := by
    cases cls with
    | _ => decide
  have hg : 0 < cls.wgStates := by
    cases cls with
    | _ => decide
  unfold zeroAction actionSpace
  cases hd : cls.isDQN with
  | true => exact Nat.mul_pos hv (Nat.pow_pos hg)
  | false =>
      have hone := List.Forall₂.cons hv List.Forall₂.nil
      exact List.rel_append (List.rel_append hone (hz 1 Nat.one_pos)) (hz _ hg)

/-- A policy with one action. -/
def Policy.constant (cls : EnvClass) (numUes : ℕ) : Policy where
  cls := cls
  numUes := numUes
  predict := fun state =>
    if state.map List.length = some (cls.observationSpace numUes).length then
      .ok (cls.zeroAction numUes)
    else .error .library
  accepts := by
    intro state
    split
    · next h => exact iff_of_true rfl h
    · next h => exact iff_of_false (fun h' => by cases h') h
  predict_mem := by
    intro state a h
    split at h
    · cases h
      exact cls.contains_zeroAction numUes
    · cases h

/-- A policy with one action, which is the one of the environment. -/
def Surroundings.constant (cls : EnvClass) (numUes : ℕ) : Surroundings where
  policy := .constant cls numUes
  action := some (cls.zeroAction numUes)
  action_mem := by
    rintro a h
    cases h
    exact cls.contains_zeroAction numUes
  randV := 0
  randWq := fun _ => 0
  randWg := fun _ => 0

/-- A server that trains for four UEs, with its thread in `env.step`. -/
def Service.trainingFour : Service :=
  Runs.exec (Service.step { predict := false }) (.start fun _ => [])
    [.configure .untrained ⟨"PPO", 4, "Basic"⟩, .thread 0 false]

/-- A registry with the UEs of the RNTIs `1` to `n`. -/
def World.registry (n : ℕ) : World :=
  { World.fresh {} fun _ => 0 with allUEs := (List.range n).map fun p => (p, 100) }

theorem covered_trainingFour :
    Service.trainingFour.Responds { predict := false } (.constant .customEnvBasic 4)
      ⟨[2, 2, 2, 2], [0, 0, 0, 0], [0, 0, 0, 0], [0, 0, 0, 0], .fin 1⟩
      fun r => Covered (.registry 4) (postResult r) := by
  have hr : (World.registry 4).ValidRntis := by
    unfold World.ValidRntis
    decide +kernel
  have hlearner : Service.trainingFour.server.modelType.bind Algorithm.ofName = some .PPO := by
    decide +kernel
  refine (covered_iff _ _ _ _ _ hr (by decide +kernel)).mpr ⟨nofun, ?_⟩
  unfold Server.Answerable
  rw [if_neg (by decide)]
  refine ⟨fun _ => le_rfl, ?_⟩
  rw [if_neg (by decide +kernel), hlearner]
  refine ⟨⟨by decide +kernel, nofun, by decide +kernel⟩, fun _ => by decide +kernel,
    ⟨1, .customEnvBasic, 4, 0⟩, by decide +kernel, ?_⟩
  unfold Server.LearnerFits
  rw [if_neg Bool.false_ne_true]
  refine ⟨rfl, ?_⟩
  unfold World.Within
  decide +kernel

/-- With five UEs and a report of three of them, the response has four entries. -/
theorem not_covered_default :
    ¬ ∀ (o : Options) (x : Surroundings) (s : Service) (e : EnvObject) (req : InferRequest)
      (w : World), s.loop = .free → s.server.Ready e → x.policy.cls = e.cls →
        x.policy.numUes = e.numUes → req.reward ≠ .undef →
          (∀ ue ∈ w.allUEs, 1 ≤ (w.ues ue.1).rnti ∧ (w.ues ue.1).rnti ≤ e.numUes) →
            s.Responds o x req fun r => Covered w (postResult r) := by
  intro h
  have hready : (Server.configuredFor 5).Ready ⟨1, .customEnvBasic, 5, 0⟩ :=
    ⟨by decide +kernel, ⟨"PPO", by decide +kernel, by decide +kernel⟩, by decide +kernel,
      by decide +kernel⟩
  have hrntis : ∀ ue ∈ (World.registry 5).allUEs, 1 ≤ ((World.registry 5).ues ue.1).rnti ∧
      ((World.registry 5).ues ue.1).rnti ≤ 5 := by decide +kernel
  obtain ⟨n, r, hreply, hcovered⟩ := h {} (.constant .customEnvBasic 5)
    { server := .configuredFor 5 } _ ⟨[2, 2, 2], [0, 0, 0], [0, 0, 0], [0, 0, 0], .fin 1⟩ _ rfl
    hready rfl rfl nofun hrntis .inTurn
  rw [Service.reply_eq (by exact nofun) hreply] at hcovered
  have hnumbers := hcovered.numbers (Settings.zero 4).json rfl (4, 100) (by decide +kernel)
  exact absurd hnumbers (by decide +kernel)

end Rbis

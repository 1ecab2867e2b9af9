import RainFloat.Deploy.Reason

/-!
# Walk — the deployment on every supported network

The walk creates a fork of every network, then selects each and looks at the deployed contract.
Whatever fails on one network is kept as a line of the report, and the others are still looked at.

* `checkProdDeployment_spec`: what is found out about one fork;
* `createForks_spec`, `checkForks_spec`: what the two passes add to the report;
* `walk_reports`: the report of the whole walk, and when there is none.

The tool that forks is a parameter.  Forks created once a fork is selected need not show the
network's own accounts, so that only what is documented of a fork created before is assumed.
-/

namespace RainFloat
namespace Deploy

open Foundation
open Binding (Bytes)

/-! ## The walk -/

/-- ASCII text as bytes -/
def ascii (s : List Char) : Bytes :=
  s.map fun c => c.toNat.toUInt8

abbrev text (s : String) : Bytes :=
  ascii s.toList

def zoltuDeployedDecimalFloatAddress : ℕ :=
  0xEe89464d0ba4721AD1DF75c2fC5916c609CE4493

def decimalFloatContractHash : ℕ :=
  0xb384628e85ad6b9e880332c855443be65f985770d6e44e73df6d99ad60d3cea0

/-- What the walk asks of the tool: each time there is an answer or a revert, and the state of the
tool behind it.  Failed assertions revert with the error given here. -/
structure Cheatcodes (σ : Type) where
  createFork : Bytes → σ → Except Bytes ℕ × σ
  selectFork : ℕ → σ → Except Bytes Unit × σ
  code : ℕ → σ → Bytes × σ
  codehash : ℕ → σ → ℕ × σ
  toString : Bytes → Bytes
  assertTrueError : Bytes → Bytes
  assertEqHashError : ℕ → ℕ → Bytes → Bytes
  assertEqStringError : Bytes → Bytes → Bytes → Bytes

section Walk

variable {σ : Type} (vm : Cheatcodes σ)

/-- `checkProdDeployment`, called as `checkProdDeploymentExternal` -/
def checkProdDeployment (forkId : ℕ) (s : σ) : Except Bytes Unit × σ :=
  match vm.selectFork forkId s with
  | (.error err, s) => (.error err, s)
  | (.ok (), s) =>
    match vm.code zoltuDeployedDecimalFloatAddress s with
    | (code, s) =>
      if ¬ code.length > 0 then
        (.error (vm.assertTrueError (text "DecimalFloat not deployed")), s)
      else
        match vm.codehash zoltuDeployedDecimalFloatAddress s with
        | (codehash, s) =>
          if codehash ≠ decimalFloatContractHash then
            (.error (vm.assertEqHashError codehash decimalFloatContractHash
              (text "DecimalFloat code hash mismatch")), s)
          else (.ok (), s)

/-- A line of the report -/
def line (network reason : Bytes) : Bytes :=
  text "\n" ++ (network ++ (text ": " ++ reason))

/-- The first pass: a fork ID for every network, and whether it was created. -/
def createForks : List Bytes → Bytes → σ → List (ℕ × Bool) × Bytes × σ
  | [], failures, s => ([], failures, s)
  | network :: networks, failures, s =>
    match vm.createFork network s with
    | (.ok forkId, s) =>
      match createForks networks failures s with
      | (forks, failures, s) => ((forkId, true) :: forks, failures, s)
    | (.error err, s) =>
      match createForks networks (failures ++ line network (reasonOf vm.toString err)) s with
      | (forks, failures, s) => ((0, false) :: forks, failures, s)

/-- The second pass, over the networks and what the first pass left of them. -/
def checkForks : List (Bytes × ℕ × Bool) → Bytes → σ → Bytes × σ
  | [], failures, s => (failures, s)
  | (_, _, false) :: rest, failures, s => checkForks rest failures s
  | (network, forkId, true) :: rest, failures, s =>
    match checkProdDeployment vm forkId s with
    | (.ok (), s) => checkForks rest failures s
    | (.error err, s) =>
      checkForks rest (failures ++ line network (reasonOf vm.toString err)) s

/-- `testProdDeploymentEverySupportedNetwork`, over the supported networks -/
def testProdDeploymentEverySupportedNetwork (networks : List Bytes) (s : σ) :
    Except Bytes Unit × σ :=
  if ¬ networks.length > 0 then (.error (vm.assertTrueError (text "no supported networks")), s)
  else
    match createForks vm networks [] s with
    | (forks, failures, s) =>
      match checkForks vm (networks.zip forks) failures s with
      | (failures, s) =>
        if failures ≠ [] then (.error (vm.assertEqStringError failures [] failures), s)
        else (.ok (), s)

end Walk

/-! ## Forks -/

structure Account where
  code : Bytes
  codehash : ℕ

/-- What is behind the name of a network: no endpoint to reach, one that is lost once the fork is
selected, or one that serves the accounts at each address. -/
inductive Endpoint
  | unreachable (err : Bytes)
  | lost (err : Bytes)
  | serves (accounts : ℕ → Account)

/-- What is documented of the tool, in terms of three things its state is known by: nothing was
selected yet, a fork shows an endpoint as it is, and the selected fork does.  `detail` is how a
failed comparison goes on behind its message. -/
structure Cheatcodes.Documented {σ : Type} (vm : Cheatcodes σ) (endpoints : Bytes → Endpoint)
    (detail : ℕ → ℕ → Bytes) (Unselected : σ → Prop) (Shows : σ → ℕ → Endpoint → Prop)
    (Faces : σ → (ℕ → Account) → Prop) : Prop where
  createFork_unreachable : ∀ {network err s}, Unselected s → endpoints network = .unreachable err →
    (vm.createFork network s).1 = .error err
  createFork_shows : ∀ {network s}, Unselected s → (∀ err, endpoints network ≠ .unreachable err) →
    ∃ forkId, (vm.createFork network s).1 = .ok forkId ∧
      Shows (vm.createFork network s).2 forkId (endpoints network)
  createFork_unselected : ∀ network {s}, Unselected s → Unselected (vm.createFork network s).2
  createFork_keeps : ∀ network {s forkId e}, Unselected s → Shows s forkId e →
    Shows (vm.createFork network s).2 forkId e
  selectFork_lost : ∀ {forkId err s}, Shows s forkId (.lost err) →
    (vm.selectFork forkId s).1 = .error err
  selectFork_serves : ∀ {forkId accounts s}, Shows s forkId (.serves accounts) →
    (vm.selectFork forkId s).1 = .ok () ∧ Faces (vm.selectFork forkId s).2 accounts
  selectFork_keeps : ∀ selected {s forkId e}, Shows s forkId e →
    Shows (vm.selectFork selected s).2 forkId e
  code_faces : ∀ address {accounts s}, Faces s accounts →
    (vm.code address s).1 = (accounts address).code ∧ Faces (vm.code address s).2 accounts
  code_keeps : ∀ address {s forkId e}, Shows s forkId e → Shows (vm.code address s).2 forkId e
  codehash_faces : ∀ address {accounts s}, Faces s accounts →
    (vm.codehash address s).1 = (accounts address).codehash
  codehash_keeps : ∀ address {s forkId e}, Shows s forkId e →
    Shows (vm.codehash address s).2 forkId e
  assertTrueError_carries : ∀ message : Bytes, message.length < 2 ^ 64 →
    CarriesString (vm.assertTrueError message) message
  assertEqHashError_carries : ∀ (a b : ℕ) (message : Bytes), message.length < 2 ^ 32 →
    CarriesString (vm.assertEqHashError a b message) (message ++ detail a b)

namespace Endpoint

variable (toString : Bytes → Bytes) (detail : ℕ → ℕ → Bytes)

/-- Why a network could not be forked -/
def createReason : Endpoint → Option Bytes
  | unreachable err => some (reasonOf toString err)
  | _ => none

/-- Why a network that could be forked fails -/
def checkReason : Endpoint → Option Bytes
  | unreachable _ => none
  | lost err => some (reasonOf toString err)
  | serves accounts =>
    let decimalFloat := accounts zoltuDeployedDecimalFloatAddress
    if decimalFloat.code = [] then some (text "DecimalFloat not deployed")
    else if decimalFloat.codehash ≠ decimalFloatContractHash then
      some (text "DecimalFloat code hash mismatch" ++
        detail decimalFloat.codehash decimalFloatContractHash)
    else none

/-- Why a network fails -/
def reason (e : Endpoint) : Option Bytes :=
  (e.createReason toString).or (e.checkReason toString detail)

/-- The contract is there, and is the one that was built. -/
def Deployed (e : Endpoint) : Prop :=
  ∃ accounts, e = serves accounts ∧ (accounts zoltuDeployedDecimalFloatAddress).code ≠ [] ∧
    (accounts zoltuDeployedDecimalFloatAddress).codehash = decimalFloatContractHash

variable {toString detail}

theorem reason_eq_none_iff {e : Endpoint} : e.reason toString detail = none ↔ e.Deployed := by
  cases e with
  | unreachable err => simp [reason, createReason, Deployed]
  | lost err => simp [reason, createReason, checkReason, Deployed]
  | serves accounts =>
      simp only [reason, createReason, checkReason, Deployed, Option.none_or, serves.injEq,
        exists_eq_left']
      split
      · rename_i hempty
        simp [hempty]
      · rename_i hsome
        split
        · rename_i hhash
          simp [hhash]
        · rename_i hhash
          exact iff_of_true rfl ⟨hsome, not_not.1 hhash⟩

theorem createReason_eq_none {e : Endpoint} (h : ∀ err, e ≠ unreachable err) :
    e.createReason toString = none := by
  cases e with
  | unreachable err => exact absurd rfl (h err)
  | lost err => rfl
  | serves accounts => rfl

variable (toString detail) in
/-- What could not be forked is not checked. -/
theorem createReason_eq_none_or (e : Endpoint) :
    e.createReason toString = none ∨ e.checkReason toString detail = none := by
  cases e with
  | unreachable err => exact Or.inr rfl
  | lost err => exact Or.inl rfl
  | serves accounts => exact Or.inl rfl

end Endpoint

/-- Why a reply is a failure -/
def failureReason {α : Type} (toString : Bytes → Bytes) : Except Bytes α → Option Bytes
  | .ok _ => none
  | .error err => some (reasonOf toString err)

/-- The lines about networks that fail for a reason -/
def linesFor (reason : Bytes → Option Bytes) (networks : List Bytes) : List Bytes :=
  networks.filterMap fun network => (reason network).map (line network)

section Lines

variable {reason : Bytes → Option Bytes} {network : Bytes} (networks : List Bytes)

theorem linesFor_cons_none (h : reason network = none) :
    linesFor reason (network :: networks) = linesFor reason networks :=
  List.filterMap_cons_none (by rw [h]; rfl)

theorem linesFor_cons_some {r : Bytes} (h : reason network = some r) :
    linesFor reason (network :: networks) = line network r :: linesFor reason networks :=
  List.filterMap_cons_some (by rw [h]; rfl)

/-- There is a line about each network that fails, and no other. -/
theorem linesFor_eq_nil_iff : linesFor reason networks = [] ↔ ∀ n ∈ networks, reason n = none := by
  simp [linesFor]

/-- Reasons of two kinds, never both for one network: the lines about either kind, one after the
other, are the lines there are. -/
theorem linesFor_append_perm {first second : Bytes → Option Bytes}
    (hfirst : ∀ n, first n = none ∨ second n = none) :
    (linesFor first networks ++ linesFor second networks).Perm
      (linesFor (fun n => (first n).or (second n)) networks) := by
  induction networks with
  | nil => exact List.Perm.refl _
  | cons n networks ih =>
      -- A line of the second kind moves up past those of the first that follow it.
      cases hn : first n with
      | some r =>
          have hsecond : second n = none := (hfirst n).resolve_left (by simp [hn])
          rw [linesFor_cons_some networks hn, linesFor_cons_none networks hsecond,
            linesFor_cons_some networks (by rw [hn]; rfl)]
          exact ih.cons _
      | none =>
          rw [linesFor_cons_none networks hn]
          cases hn' : second n with
          | none =>
              rw [linesFor_cons_none networks hn',
                linesFor_cons_none networks (by rw [hn, hn']; rfl)]
              exact ih
          | some r =>
              rw [linesFor_cons_some networks hn',
                linesFor_cons_some networks (by rw [hn, hn']; rfl)]
              exact List.perm_middle.trans (ih.cons _)

theorem flatten_linesFor_eq_nil_iff : (linesFor reason networks).flatten = [] ↔
    linesFor reason networks = [] := by
  rw [List.flatten_eq_nil_iff, List.eq_nil_iff_forall_not_mem]
  refine forall_congr' fun l => ⟨fun h hl => ?_, fun h hl => absurd hl h⟩
  rcases List.mem_filterMap.1 hl with ⟨n, -, hn⟩
  rcases Option.map_eq_some_iff.1 hn with ⟨r, -, rfl⟩
  cases h hl

end Lines

/-- The lines of the report: about the networks that could not be forked, and behind them about
those that failed the check. -/
def reportLines (toString : Bytes → Bytes) (detail : ℕ → ℕ → Bytes) (endpoints : Bytes → Endpoint)
    (networks : List Bytes) : List Bytes :=
  linesFor (fun n => (endpoints n).createReason toString) networks ++
    linesFor (fun n => (endpoints n).checkReason toString detail) networks

section Report

variable (toString : Bytes → Bytes) (detail : ℕ → ℕ → Bytes) (endpoints : Bytes → Endpoint)
  (networks : List Bytes)

theorem reportLines_perm : (reportLines toString detail endpoints networks).Perm
    (linesFor (fun n => (endpoints n).reason toString detail) networks) :=
  linesFor_append_perm networks fun n => (endpoints n).createReason_eq_none_or toString detail

theorem reportLines_eq_nil_iff : reportLines toString detail endpoints networks = [] ↔
    ∀ n ∈ networks, (endpoints n).Deployed := by
  calc
    reportLines toString detail endpoints networks = []
        ↔ linesFor (fun n => (endpoints n).reason toString detail) networks = [] := by
          rw [← List.length_eq_zero_iff, (reportLines_perm ..).length_eq, List.length_eq_zero_iff]
    _ ↔ ∀ n ∈ networks, (endpoints n).reason toString detail = none :=
          linesFor_eq_nil_iff networks
    _ ↔ ∀ n ∈ networks, (endpoints n).Deployed := by
          simp only [Endpoint.reason_eq_none_iff]

/-- No line is empty. -/
theorem flatten_reportLines_eq_nil_iff :
    (reportLines toString detail endpoints networks).flatten = [] ↔
      reportLines toString detail endpoints networks = [] := by
  rw [reportLines, List.flatten_append, List.append_eq_nil_iff, List.append_eq_nil_iff,
    flatten_linesFor_eq_nil_iff, flatten_linesFor_eq_nil_iff]

end Report

/-- A fork of an endpoint, or the empty slot left where none could be created. -/
inductive Forked {σ : Type} (Shows : σ → ℕ → Endpoint → Prop) (s : σ) : Endpoint → ℕ × Bool → Prop
  | missing (err : Bytes) : Forked Shows s (.unreachable err) (0, false)
  | created {e : Endpoint} {forkId : ℕ} (h : Shows s forkId e) (he : ∀ err, e ≠ .unreachable err) :
      Forked Shows s e (forkId, true)

theorem Forked.mono {σ : Type} {Shows : σ → ℕ → Endpoint → Prop} {s s' : σ} {e : Endpoint}
    {fork : ℕ × Bool} (h : Forked Shows s e fork)
    (hkeeps : ∀ forkId e, Shows s forkId e → Shows s' forkId e) : Forked Shows s' e fork := by
  cases h with
  | missing err => exact Forked.missing err
  | created hshows he => exact Forked.created (hkeeps _ _ hshows) he

namespace Cheatcodes.Documented

variable {σ : Type} {vm : Cheatcodes σ} {endpoints : Bytes → Endpoint} {detail : ℕ → ℕ → Bytes}
  {Unselected : σ → Prop} {Shows : σ → ℕ → Endpoint → Prop} {Faces : σ → (ℕ → Account) → Prop}

/-! ### One fork -/

theorem checkProdDeployment_keeps (h : vm.Documented endpoints detail Unselected Shows Faces)
    {s : σ} {forkId : ℕ} {e : Endpoint} (hs : Shows s forkId e) (selected : ℕ) :
    Shows (checkProdDeployment vm selected s).2 forkId e := by
  have hselected := h.selectFork_keeps selected hs
  -- Wherever the check ends, it has only selected a fork and looked at accounts.
  cases hselect : vm.selectFork selected s with
  | mk reply s₁ =>
      rw [hselect] at hselected
      cases reply with
      | error err => simpa only [checkProdDeployment, hselect] using hselected
      | ok _ =>
          have hcode := h.code_keeps zoltuDeployedDecimalFloatAddress hselected
          have hcodehash := h.codehash_keeps zoltuDeployedDecimalFloatAddress hcode
          simp only [checkProdDeployment, hselect]
          split
          · exact hcode
          · split
            · exact hcodehash
            · exact hcodehash

/-- Looking at a fork finds out why its network fails, if it does. -/
theorem checkProdDeployment_spec (h : vm.Documented endpoints detail Unselected Shows Faces)
    {s : σ} {forkId : ℕ} {e : Endpoint} (hs : Shows s forkId e)
    (he : ∀ err, e ≠ .unreachable err) :
    failureReason vm.toString (checkProdDeployment vm forkId s).1 =
      e.checkReason vm.toString detail := by
  cases hselect : vm.selectFork forkId s with
  | mk reply s₁ =>
      cases e with
      | unreachable err => exact absurd rfl (he err)
      | lost err =>
          have hlost := h.selectFork_lost hs
          rw [hselect] at hlost
          cases hlost
          simp only [checkProdDeployment, hselect]
          rfl
      | serves accounts =>
          rcases h.selectFork_serves hs with ⟨hserves, hfaces⟩
          rw [hselect] at hserves hfaces
          cases hserves
          rcases h.code_faces zoltuDeployedDecimalFloatAddress hfaces with
            ⟨hcode, hfaces'⟩
          have hcodehash := h.codehash_faces zoltuDeployedDecimalFloatAddress hfaces'
          simp only [checkProdDeployment, hselect, hcode, hcodehash, Endpoint.checkReason]
          by_cases hempty : (accounts zoltuDeployedDecimalFloatAddress).code = []
          · rw [if_pos (by simp [hempty]), if_pos hempty]
            have hcarries :=
              h.assertTrueError_carries (text "DecimalFloat not deployed") (by decide)
            exact congrArg some (reasonOf_of_carriesString _ hcarries)
          · rw [if_neg (by simpa [List.length_pos_iff] using hempty), if_neg hempty]
            split
            · have hcarries := h.assertEqHashError_carries
                (accounts zoltuDeployedDecimalFloatAddress).codehash decimalFloatContractHash
                (text "DecimalFloat code hash mismatch") (by decide)
              exact congrArg some (reasonOf_of_carriesString _ hcarries)
            · rfl

/-! ### The two passes -/

/-- The first pass adds a line for each network that cannot be forked, and leaves a fork of each
other. -/
theorem createForks_spec (h : vm.Documented endpoints detail Unselected Shows Faces)
    (networks : List Bytes) : ∀ (failures : Bytes) {s : σ}, Unselected s →
    ∃ forks s', createForks vm networks failures s =
        (forks, failures ++ (linesFor (fun network => (endpoints network).createReason vm.toString)
          networks).flatten, s') ∧
      (∀ forkId e, Shows s forkId e → Shows s' forkId e) ∧
      List.Forall₂ (fun network fork => Forked Shows s' (endpoints network) fork)
        networks forks := by
  induction networks with
  | nil =>
      intro failures s hs
      exact ⟨[], s, by simp [createForks, linesFor], fun _ _ hshows => hshows, List.Forall₂.nil⟩
  | cons network networks ih =>
      intro failures s hs
      have hkeeps : ∀ forkId e, Shows s forkId e → Shows (vm.createFork network s).2 forkId e :=
        fun _ _ => h.createFork_keeps network hs
      have hunselected := h.createFork_unselected network hs
      -- A line and an empty slot, or a fork and no line.
      by_cases hreach : ∃ err, endpoints network = .unreachable err
      · rcases hreach with ⟨err, hreach⟩
        have hfails := h.createFork_unreachable hs hreach
        cases hcreate : vm.createFork network s with
        | mk reply s₁ =>
            rw [hcreate] at hfails hkeeps hunselected
            cases hfails
            rcases ih (failures ++ line network (reasonOf vm.toString err)) hunselected with
              ⟨forks, s', heq, hrest, hforks⟩
            refine ⟨(0, false) :: forks, s', ?_,
              fun _ _ hshows => hrest _ _ (hkeeps _ _ hshows), ?_⟩
            · simp only [createForks, hcreate, heq]
              rw [linesFor_cons_some networks (by rw [hreach]; rfl), List.flatten_cons,
                List.append_assoc]
            · refine List.Forall₂.cons ?_ hforks
              rw [hreach]
              exact Forked.missing err
      · rw [not_exists] at hreach
        rcases h.createFork_shows hs hreach with ⟨forkId, hcreated, hshows⟩
        cases hcreate : vm.createFork network s with
        | mk reply s₁ =>
            rw [hcreate] at hcreated hkeeps hunselected hshows
            cases hcreated
            rcases ih failures hunselected with ⟨forks, s', heq, hrest, hforks⟩
            refine ⟨(forkId, true) :: forks, s', ?_,
              fun _ _ hshows => hrest _ _ (hkeeps _ _ hshows), ?_⟩
            · simp only [createForks, hcreate, heq]
              rw [linesFor_cons_none networks (Endpoint.createReason_eq_none hreach)]
            · exact List.Forall₂.cons (Forked.created (hrest _ _ hshows) hreach) hforks

/-- The second pass adds a line for each network whose fork fails the check. -/
theorem checkForks_spec (h : vm.Documented endpoints detail Unselected Shows Faces)
    {networks : List Bytes} {forks : List (ℕ × Bool)} {s : σ}
    (hforks : List.Forall₂ (fun network fork => Forked Shows s (endpoints network) fork)
      networks forks) (failures : Bytes) :
    (checkForks vm (networks.zip forks) failures s).1 =
      failures ++ (linesFor (fun network => (endpoints network).checkReason vm.toString detail)
        networks).flatten := by
  induction networks generalizing forks s failures with
  | nil => simp [checkForks, linesFor]
  | cons network networks ih =>
      cases hforks with
      | cons hfork hforks =>
          generalize hendpoint : endpoints network = e at hfork
          cases hfork with
          | missing err =>
              rw [linesFor_cons_none networks (by rw [hendpoint]; rfl)]
              exact ih hforks failures
          | @created _ forkId hshows he =>
              have hspec := h.checkProdDeployment_spec hshows he
              -- The forks of the networks behind stay what they are.
              have hrest := hforks.imp fun _ _ hfork => hfork.mono
                fun _ _ hshows => h.checkProdDeployment_keeps hshows forkId
              cases hcheck : checkProdDeployment vm forkId s with
              | mk reply s₁ =>
                  rw [hcheck] at hspec hrest
                  cases reply with
                  | ok _ =>
                      rw [linesFor_cons_none networks (by rw [hendpoint]; exact hspec.symm)]
                      simp only [List.zip_cons_cons, checkForks, hcheck]
                      exact ih hrest failures
                  | error err =>
                      rw [linesFor_cons_some networks (by rw [hendpoint]; exact hspec.symm),
                        List.flatten_cons, ← List.append_assoc]
                      simp only [List.zip_cons_cons, checkForks, hcheck]
                      exact ih hrest _

/-- Both passes: the report is complete. -/
theorem passes_spec (h : vm.Documented endpoints detail Unselected Shows Faces)
    (networks : List Bytes) {s : σ} (hs : Unselected s) :
    ∃ forks failures s', createForks vm networks [] s = (forks, failures, s') ∧
      (checkForks vm (networks.zip forks) failures s').1 =
        (reportLines vm.toString detail endpoints networks).flatten := by
  rcases h.createForks_spec networks [] hs with ⟨forks, s', heq, -, hforks⟩
  refine ⟨forks, _, s', heq, ?_⟩
  rw [h.checkForks_spec hforks, reportLines, List.flatten_append, List.nil_append]

/-- How the walk ends -/
theorem walk_eq (h : vm.Documented endpoints detail Unselected Shows Faces)
    (networks : List Bytes) {s : σ} (hs : Unselected s) :
    (testProdDeploymentEverySupportedNetwork vm networks s).1 =
      if networks = [] then .error (vm.assertTrueError (text "no supported networks"))
      else if reportLines vm.toString detail endpoints networks = [] then .ok ()
      else .error (vm.assertEqStringError
        (reportLines vm.toString detail endpoints networks).flatten []
        (reportLines vm.toString detail endpoints networks).flatten) := by
  rcases h.passes_spec networks hs with ⟨forks, failures, s₁, hcreate, hcheck⟩
  have hnil := flatten_reportLines_eq_nil_iff vm.toString detail endpoints networks
  cases hfinal : checkForks vm (networks.zip forks) failures s₁ with
  | mk report s₂ =>
      rw [hfinal] at hcheck
      dsimp only at hcheck
      rw [← hcheck] at hnil ⊢
      simp only [testProdDeploymentEverySupportedNetwork, hcreate, hfinal]
      -- The three ways for the walk to end, in the order of the source.
      by_cases hempty : networks = []
      · rw [if_pos (by simp [hempty]), if_pos hempty]
      · rw [if_neg (by simpa [List.length_pos_iff] using hempty), if_neg hempty]
        by_cases hreport : report = []
        · rw [if_neg (not_not.2 hreport), if_pos (hnil.1 hreport)]
        · rw [if_pos hreport, if_neg (mt hnil.2 hreport)]

end Cheatcodes.Documented

/-! ### A tool that forks -/

/-- A fork, and the addresses that are empty on it because they were touched before. -/
structure Fork where
  endpoint : Endpoint
  seeded : List ℕ

def Fork.account (fork : Fork) (address : ℕ) : Account :=
  match fork.endpoint with
  | .serves accounts => if address ∈ fork.seeded then ⟨[], 0⟩ else accounts address
  | _ => ⟨[], 0⟩

/-- A fork that was seeded with nothing serves what its endpoint does. -/
theorem Fork.account_unseeded (accounts : ℕ → Account) (address : ℕ) :
    Fork.account ⟨.serves accounts, []⟩ address = accounts address := by
  simp [Fork.account]

/-- The state of foundry as the walk knows it: which addresses were touched, which of them were
captured when a fork was first selected, the forks, and the one that is selected. -/
structure Foundry where
  touched : List ℕ
  captured : Option (List ℕ)
  forks : List Fork
  selected : Option ℕ

/-- An error of a cheatcode: `CheatcodeError(string)` -/
def cheatcodeError (message : Bytes) : Bytes :=
  [0xee, 0xaa, 0x9e, 0x6f] ++ encodeString message

def hexOf (b : Bytes) : Bytes :=
  ascii ('0' :: 'x' :: hexText b)

namespace Foundry

variable (endpoints : Bytes → Endpoint)

/-- Every fork created after the capture is seeded with what was captured. -/
def createFork (network : Bytes) (s : Foundry) : Except Bytes ℕ × Foundry :=
  match endpoints network with
  | .unreachable err => (.error err, s)
  | e => (.ok s.forks.length, { s with forks := s.forks ++ [⟨e, s.captured.getD []⟩] })

def selectFork (forkId : ℕ) (s : Foundry) : Except Bytes Unit × Foundry :=
  match s.forks[forkId]? with
  | none => (.error (cheatcodeError (text "no such fork")), s)
  | some fork =>
    match fork.endpoint with
    | .unreachable err => (.error err, s)
    | .lost err => (.error err, s)
    | .serves _ =>
      (.ok (), { s with captured := some (s.captured.getD s.touched), selected := some forkId })

/-- Reading an account touches its address. -/
def account (address : ℕ) (s : Foundry) : Account × Foundry :=
  (match s.selected.bind fun forkId => s.forks[forkId]? with
    | some fork => fork.account address
    | none => ⟨[], 0⟩,
   { s with touched := address :: s.touched })

/-- How two values that differ are shown behind a message. -/
def detail (a b : ℕ) : Bytes :=
  text ": " ++ (hexOf (word a) ++ (text " != " ++ hexOf (word b)))

def cheatcodes : Cheatcodes Foundry where
  createFork := createFork endpoints
  selectFork := selectFork
  code address s := ((account address s).1.code, (account address s).2)
  codehash address s := ((account address s).1.codehash, (account address s).2)
  toString := hexOf
  assertTrueError := cheatcodeError
  assertEqHashError a b message := cheatcodeError (message ++ detail a b)
  assertEqStringError a b message :=
    cheatcodeError (message ++ (text ": " ++ (a ++ (text " != " ++ b))))

/-- No fork was ever selected, so nothing is captured. -/
def Unselected (s : Foundry) : Prop :=
  s.captured = none

/-- A fork that was seeded with nothing -/
def Shows (s : Foundry) (forkId : ℕ) (e : Endpoint) : Prop :=
  s.forks[forkId]? = some ⟨e, []⟩

def Faces (s : Foundry) (accounts : ℕ → Account) : Prop :=
  ∃ forkId, s.selected = some forkId ∧ s.Shows forkId (.serves accounts)

theorem cheatcodeError_carries {message : Bytes} (h : message.length < 2 ^ 64) :
    CarriesString (cheatcodeError message) message :=
  ⟨h, [0xee, 0xaa, 0x9e, 0x6f], _, rfl, rfl⟩

theorem length_hexOf_word (n : ℕ) : (hexOf (word n)).length = 66 := by
  rw [hexOf, ascii, List.length_map, List.length_cons, List.length_cons, length_hexText,
    length_beBytes]

theorem createFork_created {network : Bytes} (h : ∀ err, endpoints network ≠ .unreachable err)
    (s : Foundry) : createFork endpoints network s =
      (.ok s.forks.length,
        { s with forks := s.forks ++ [⟨endpoints network, s.captured.getD []⟩] }) := by
  cases hendpoint : endpoints network with
  | unreachable err => exact absurd hendpoint (h err)
  | lost err => simp only [createFork, hendpoint]
  | serves accounts => simp only [createFork, hendpoint]

theorem createFork_unreachable {network err : Bytes} (h : endpoints network = .unreachable err)
    (s : Foundry) : createFork endpoints network s = (.error err, s) := by
  simp only [createFork, h]

theorem createFork_captured (network : Bytes) (s : Foundry) :
    (createFork endpoints network s).2.captured = s.captured := by
  unfold createFork
  split
  · rfl
  · rfl

theorem Shows.createFork {s : Foundry} {forkId : ℕ} {e : Endpoint} (h : s.Shows forkId e)
    (network : Bytes) : (createFork endpoints network s).2.Shows forkId e := by
  unfold Foundry.createFork
  split
  · exact h
  · exact (List.getElem?_append_left (List.getElem?_eq_some_iff.1 h).1).trans h

/-- Selecting a fork changes none. -/
theorem selectFork_forks (forkId : ℕ) (s : Foundry) : (selectFork forkId s).2.forks = s.forks := by
  unfold selectFork
  split
  · rfl
  · split
    · rfl
    · rfl
    · rfl

theorem Faces.account {s : Foundry} {accounts : ℕ → Account} (h : s.Faces accounts)
    (address : ℕ) : (account address s).1 = accounts address := by
  rcases h with ⟨forkId, hselected, hshows⟩
  simp only [Foundry.account, hselected, Option.bind_some, show s.forks[forkId]? = _ from hshows]
  exact Fork.account_unseeded accounts address

/-- Whatever was touched before, forks created before any is selected are what they are documented
to be. -/
theorem documented :
    (cheatcodes endpoints).Documented endpoints detail Unselected Shows Faces where
  createFork_unreachable _ h := congrArg Prod.fst (createFork_unreachable endpoints h _)
  createFork_shows := by
    intro network s hs h
    refine ⟨s.forks.length, congrArg Prod.fst (createFork_created endpoints h s), ?_⟩
    show (createFork endpoints network s).2.Shows _ _
    rw [createFork_created endpoints h s, show s.captured = none from hs]
    exact List.getElem?_concat_length
  createFork_unselected network s hs := (createFork_captured endpoints network s).trans hs
  createFork_keeps network _ _ _ _ h := h.createFork endpoints network
  selectFork_lost := by
    intro forkId err s h
    show (selectFork forkId s).1 = _
    rw [selectFork, show s.forks[forkId]? = _ from h]
  selectFork_serves := by
    intro forkId accounts s h
    show (selectFork forkId s).1 = _ ∧ (selectFork forkId s).2.Faces accounts
    rw [selectFork, show s.forks[forkId]? = _ from h]
    exact ⟨rfl, forkId, rfl, h⟩
  selectFork_keeps selected s forkId e h := by
    show (selectFork selected s).2.forks[forkId]? = _
    rw [selectFork_forks]
    exact h
  code_faces address _ _ h := ⟨congrArg Account.code (h.account address), h⟩
  code_keeps _ _ _ _ h := h
  codehash_faces address _ _ h := congrArg Account.codehash (h.account address)
  codehash_keeps _ _ _ _ h := h
  assertTrueError_carries _ h := cheatcodeError_carries h
  assertEqHashError_carries a b message h := by
    apply cheatcodeError_carries
    have hdetail : (detail a b).length = 138 := by
      simp only [detail, List.length_append, length_hexOf_word]
      rfl
    rw [List.length_append, hdetail]
    omega

end Foundry

/-! ### The walk -/

/-- The report names every network that fails, in one line with the reason, and no other: those that
could not be forked in the order of the list, and behind them those that failed the check.  The walk
succeeds just when there are networks and the contract is deployed on each. -/
theorem walk_reports {σ : Type} {vm : Cheatcodes σ} {endpoints : Bytes → Endpoint}
    {detail : ℕ → ℕ → Bytes} {Unselected : σ → Prop} {Shows : σ → ℕ → Endpoint → Prop}
    {Faces : σ → (ℕ → Account) → Prop}
    (h : vm.Documented endpoints detail Unselected Shows Faces) (networks : List Bytes) {s : σ}
    (hs : Unselected s) :
    (testProdDeploymentEverySupportedNetwork vm networks s).1 =
      (if networks = [] then .error (vm.assertTrueError (text "no supported networks"))
      else if reportLines vm.toString detail endpoints networks = [] then .ok ()
      else .error (vm.assertEqStringError
        (reportLines vm.toString detail endpoints networks).flatten []
        (reportLines vm.toString detail endpoints networks).flatten)) ∧
    (reportLines vm.toString detail endpoints networks).Perm
      (linesFor (fun n => (endpoints n).reason vm.toString detail) networks) ∧
    ((testProdDeploymentEverySupportedNetwork vm networks s).1 = .ok () ↔
      networks ≠ [] ∧ ∀ n ∈ networks, (endpoints n).Deployed) := by
  refine ⟨h.walk_eq networks hs, reportLines_perm .., ?_⟩
  -- Only one of the three endings is a success.
  rw [h.walk_eq networks hs, ← reportLines_eq_nil_iff vm.toString detail]
  split
  · rename_i hempty
    simp [hempty]
  · rename_i hsome
    split
    · rename_i hnil
      exact iff_of_true rfl ⟨hsome, hnil⟩
    · rename_i hlines
      simp [hlines]

/-- Two networks that fail and one that does not, for a test that touched the address before. -/
def threeEndpoints (network : Bytes) : Endpoint :=
  if network = text "arbitrum" then .unreachable (cheatcodeError (text "no endpoint"))
  else if network = text "base" then .serves fun _ => ⟨[], 0⟩
  else .serves fun _ => ⟨[0x60], decimalFloatContractHash⟩

theorem walk_reports_three :
    (testProdDeploymentEverySupportedNetwork (Foundry.cheatcodes threeEndpoints)
      [text "base", text "flare", text "arbitrum"]
      ⟨[zoltuDeployedDecimalFloatAddress], none, [], none⟩).1 =
    .error (cheatcodeError (text ("\narbitrum: no endpoint\nbase: DecimalFloat not deployed" ++
      ": \narbitrum: no endpoint\nbase: DecimalFloat not deployed != "))) := by
  have hlines : reportLines hexOf Foundry.detail threeEndpoints
      [text "base", text "flare", text "arbitrum"] =
      [text "\narbitrum: no endpoint", text "\nbase: DecimalFloat not deployed"] := by decide
  have h := (walk_reports (Foundry.documented threeEndpoints)
    [text "base", text "flare", text "arbitrum"]
    (s := ⟨[zoltuDeployedDecimalFloatAddress], none, [], none⟩) rfl).1
  rw [if_neg (List.cons_ne_nil _ _)] at h
  rw [h, show (Foundry.cheatcodes threeEndpoints).toString = hexOf from rfl, hlines,
    if_neg (List.cons_ne_nil _ _)]
  refine congrArg Except.error (congrArg cheatcodeError ?_)
  decide

end Deploy
end RainFloat

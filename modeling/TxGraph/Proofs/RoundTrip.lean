import TxGraph.Proofs.Decoding.Recall
import TxGraph.Proofs.Lowering.Retrace
import TxGraph.Proofs.Lowering.Tidy

/-!
# From graph to transaction and back

A transaction that was built from a graph is decoded into a graph again, with the signatures of the
calls. The new graph compiles, and its transaction issues the same calls. It is the same transaction
if no operation had to add a command of its own and no vector of vectors lists an input twice: such
a vector becomes one literal, whose elements are inputs of their own.
-/

namespace TxGraph

open Decoding (contextOf callOf? Uniform)

/-! ## What a graph has to keep -/

/-- What a decoder has to recover of a command: its package is an address, the spelling of its
element type leads back to it, and its signature is in the snapshot. -/
def Command.Recoverable (s : SignatureSnapshot) : Command → Prop
  | makeMoveVec elem _ _ => ∀ spelling, elem.moveSpelling? = some spelling →
    (DataType.ofMove spelling).moveSpelling? = some spelling
  | moveCall call => (Address.parse? call.package).isSome ∧ ∃ package signature,
    s.package call.package = .ok package ∧
    package.function? call.module call.function = some signature ∧
    (call.withSignature signature).params = call.params ∧
    (call.withSignature signature).returns = call.returns ∧
    (call.withSignature signature).typeParams.length = call.typeParams.length
  | upgrade _ _ package => (Address.parse? package).isSome
  | _ => True

structure Program.NoBytes (p : Program) : Prop where
  vars : ∀ v ∈ p.vars, v.init.NoBytes
  operands : ∀ v ∈ p.operands, v.NoBytes

theorem SignatureSnapshot.uniform (s : SignatureSnapshot) : Uniform s.package where
  reads hpackage := by
    simp only [SignatureSnapshot.package, hpackage]
    split <;> simp
  same hpackage hother := by
    simp only [SignatureSnapshot.package, hpackage, hother]
    split <;> rfl

namespace Compile

/-- What a command asks of the call that it becomes. -/
def Allows (rule : TxCommand.Rule) : Command → Prop
  | .makeMoveVec elem _ _ => ∀ spelling, elem.moveSpelling? = some spelling →
    (DataType.ofMove spelling).moveSpelling? = some spelling
  | .moveCall call => (Address.parse? call.package).isSome ∧
    (call.returns.length < Limited.limit → ∀ names values, names.length = call.typeParams.length →
      values.length = call.params.length →
      rule (.moveCall call.package call.module call.function names values)
        (call.params.map ParamKind.ofType))
  | .upgrade _ _ package => (Address.parse? package).isSome
  | _ => True

theorem map_kind_arguments (g : Graph) (id : String) (scope : Scope) (params : List DataType) :
    (arguments scope g id params).map Argument.kind = params.map ParamKind.ofType := by
  rw [arguments, List.map_map]
  conv_rhs => rw [← List.zipIdx_map_fst 0 params, List.map_map]
  rfl

theorem formed_operation {rule : TxCommand.Rule} {c : Command} (hc : Allows rule c) (g : Graph)
    (id : String) (scope : Scope) : (operation g id c scope).1.Formed rule := by
  cases c with
  | splitCoins amounts =>
    have : 0 < max amounts 1 := by omega
    simp only [operation, Operation.Formed, Scope.inputs, ne_eq, List.map_eq_nil_iff,
      List.range_eq_nil]
    omega
  | makeMoveVec => exact hc
  | moveCall call =>
    obtain ⟨hparse, hrule⟩ := hc
    have hkinds := map_kind_arguments g id scope call.params
    refine ⟨hparse, fun a ha => ?_, fun hout names values hnames hvalues => ?_⟩
    · have hmem : a.kind ∈ call.params.map ParamKind.ofType := hkinds ▸ List.mem_map_of_mem ha
      obtain ⟨type, -, htype⟩ := List.mem_map.mp hmem
      exact htype ▸ ParamKind.declared_ofType type
    · rw [Scope.length_outputs] at hout
      rw [hkinds]
      refine hrule hout names values (by simpa [Scope.inputs] using hnames) ?_
      rw [hvalues, ← List.length_map (f := Argument.kind), hkinds, List.length_map]
  | upgrade => exact hc
  | _ => trivial

end Compile

theorem Command.Recoverable.allows {s : SignatureSnapshot} {c : Command} (h : c.Recoverable s) :
    Compile.Allows (.shownBy s.package Eq) c := by
  cases c with
  | makeMoveVec => exact h
  | moveCall call =>
    obtain ⟨hparse, package, signature, hpackage, hfunction, hparams, hreturns, htypes⟩ := h
    have hcall : Decoding.callOf s.package call.package call.module call.function =
        (MoveCall.of call.package call.module call.function).withSignature signature := by
      simp only [Decoding.callOf, callOf?, hpackage, hfunction, Option.map_some, Option.getD_some]
    refine ⟨hparse, fun hout names values hnames hvalues => ?_⟩
    simp only [TxCommand.Rule.shownBy, hcall]
    have hparams' : ((MoveCall.of call.package call.module call.function).withSignature
        signature).params = call.params := hparams
    have hreturns' : ((MoveCall.of call.package call.module call.function).withSignature
        signature).returns = call.returns := hreturns
    refine ⟨Nat.le_of_eq (htypes.trans hnames.symm), ?_, by rwa [hreturns'], ?_⟩
    · rw [hparams', hvalues]
    · rw [hparams', Decoding.padTypes, hvalues, Nat.sub_self, List.replicate_zero, List.append_nil]
  | upgrade => exact h
  | _ => trivial

/-- The operations of a graph whose commands allow it are regular. -/
theorem Graph.regular_of_allows {g : Graph} {reserved : List String} {p : Program}
    {rule : TxCommand.Rule} (h : g.compile reserved = .ok p) (hbytes : p.NoBytes)
    (hcommands : ∀ id ∈ g.flow.order, ∀ c, g.node? id = some (.command id c) →
      Compile.Allows rule c) :
    (∀ op ∈ p.ops, op.Regular rule) ∧ ∀ v ∈ p.vars, v.init.Even ∧ v.init.NoBytes := by
  obtain ⟨ps, scope, scope', hbinds, hproduced, -, hruns⟩ := compile_runs h
  have heven : ∀ op ∈ p.ops, ∀ v ∈ op.operands, v.Even := by
    refine hruns.forall_operands (.plain trivial) .ref fun e he => ?_
    rw [hproduced, List.mem_reverse] at he
    exact hbinds.forall_values .ref (fun _ _ => Variable.even_inlined) e he
  have hformed : ∀ op ∈ p.ops, op.Formed rule := by
    refine hruns.forall_ops fun id c t hc => ?_
    obtain ⟨hid, hnode⟩ := Compile.mem_commandsOf.mp hc
    exact Compile.formed_operation (hcommands id hid c hnode) g id t
  refine ⟨fun op hop => ⟨fun v hv => ⟨heven op hop v hv, ?_⟩, hformed op hop⟩,
    fun v hv => ⟨hbinds.even_init v hv, hbytes.vars v hv⟩⟩
  exact hbytes.operands v (List.mem_flatMap.mpr ⟨op, hop, hv⟩)

/-- The operations of a graph whose commands are recoverable are regular. -/
theorem Graph.regular_of_compile {g : Graph} {reserved : List String} {p : Program}
    {s : SignatureSnapshot} (h : g.compile reserved = .ok p) (hbytes : p.NoBytes)
    (hcommands : ∀ id c, .command id c ∈ g.nodes → c.Recoverable s) :
    (∀ op ∈ p.ops, op.Regular (.shownBy s.package Eq)) ∧
      ∀ v ∈ p.vars, v.init.Even ∧ v.init.NoBytes :=
  regular_of_allows h hbytes fun id _ c hc => (hcommands id c (mem_of_node? hc)).allows

/-! ## Round trips -/

/-- **Round trip with signatures.** The transaction of a graph is decoded, and if that reports no
error, the decoded graph compiles and builds a transaction with the same calls and the same
settings, as long as its inputs have indices. If every command came from an operation and no
vector of vectors lists an input twice, it is the same transaction. -/
theorem decode_roundTrip {g : Graph} {s : SignatureSnapshot} {reserved : List String} {p : Program}
    {options : ExecOptions} {t : Transaction} (hcompile : g.compile reserved = .ok p)
    (hbuild : Transaction.ofProgram p options = .ok t) (hbytes : p.NoBytes)
    (hcommands : ∀ id c, .command id c ∈ g.nodes → c.Recoverable s)
    (helements : ∀ c ∈ t.commands, c.HasElements) (hroom : t.unshared.length ≤ Limited.limit) :
    ∃ d, Decoded.ofTransaction s.package t = .ok d ∧ (d.hasErrors = false → ∀ reserved',
      ∃ p' t', d.graph.compile reserved' = .ok p' ∧ Transaction.ofProgram p' d.options = .ok t' ∧
        t'.callTrace = t.callTrace ∧ t'.sender = t.sender ∧ t'.gasBudget = t.gasBudget ∧
        (t.commands.length = p.ops.length → t.unshared.Nodup → t' = t)) := by
  obtain ⟨hops, hvars⟩ := Graph.regular_of_compile hcompile hbytes hcommands
  obtain ⟨⟨kinds, htidy⟩, hordered, hsender⟩ := Transaction.tidy_of_ofProgram hbuild hops hvars
  obtain ⟨d, ds, hdecode, hoptions, hds, hshows, hdrops⟩ := Decoding.exists_shown htidy s.uniform
  refine ⟨d, hdecode, fun hclean reserved' => ?_⟩
  obtain ⟨p', hp'⟩ := Decoding.exists_compile htidy hds hshows reserved'
  have hrecalled := Decoding.recalled_of_compile htidy hds hshows hp' (hdrops hclean) helements
  obtain ⟨t', ht', hrenumbers, hsender', hbudget⟩ :=
    Transaction.exists_ofProgram_of_recalled htidy hrecalled hsender hroom
  refine ⟨p', t', hp', hoptions ▸ ht', hrenumbers.callTrace_eq, hsender', hbudget,
    fun hcount hnodup => ?_⟩
  rw [Transaction.unshared_eq_firstUses hnodup, hordered hcount] at hrenumbers
  exact hrenumbers.eq_of_indices htidy.fewInputs hsender' hbudget

/-! ## A round trip -/

/-- A coin is split, one part deposited by a call and the other merged back. -/
def deposit : Graph where
  nodes := [.start "s", .finish "e", .var ⟨"g", "gas", .anyObject, none⟩,
    .var ⟨"n", "amount", .number, some (.int 5)⟩,
    .var ⟨"o", "clock", .anyObject, some (.str "0x6")⟩,
    .var ⟨"t", "type", .string, some (.str "0x2::sui::SUI")⟩, .command "split" (.splitCoins 2),
    .command "call" (.moveCall ⟨"0xa", "pool", "deposit", ["T"],
      [.objectOf "0x2::coin::Coin", .objectOf "0x2::clock::Clock", .integer .u64],
      [.objectOf "0xa::pool::Receipt"]⟩),
    .command "merge" (.mergeCoins 1 true)]
  edges := [.flow "s" "split", .flow "split" "call", .flow "call" "merge", .flow "merge" "e",
    .io "g" "out" "split" "in_coin" none, .io "n" "out" "split" "in_amount_0" (some .u64),
    .io "n" "out" "split" "in_amount_1" (some .u64), .io "t" "out" "call" "in_targ_0" none,
    .io "split" "out_coin_0" "call" "in_arg_0" none, .io "o" "out" "call" "in_arg_1" none,
    .io "n" "out" "call" "in_arg_2" (some .u64), .io "g" "out" "merge" "in_destination" none,
    .io "split" "out_coin_1" "merge" "in_source_0" none]

def depositProgram : Program where
  vars := [⟨"amount", .constant (.number "5")⟩, ⟨"type_2", .constant (.string "0x2::sui::SUI")⟩]
  ops := [.splitCoins (.object .gas) [.ref "amount", .ref "amount"] ["coin", "coin_2"],
    .moveCall "0xa" "pool" "deposit" [.ref "type_2"]
      [⟨.ref "coin", .handle⟩, ⟨.object .clock, .handle⟩, ⟨.ref "amount", .integer .u64⟩]
      ["deposit_result"],
    .mergeCoins (.object .gas) (.each [.ref "coin_2"])]

def depositTransaction : Transaction where
  sender := none
  gasBudget := some 7
  inputs := [.pure (some "u64") [5, 0, 0, 0, 0, 0, 0, 0],
    .object "0x0000000000000000000000000000000000000000000000000000000000000006",
    .pure (some "u64") [5, 0, 0, 0, 0, 0, 0, 0]]
  commands := [.splitCoins .gasCoin [.input 0, .input 0],
    .moveCall "0xa" "pool" "deposit" ["0x2::sui::SUI"] [.nested 0 0, .input 1, .input 2],
    .mergeCoins .gasCoin [.nested 0 1]]

/-- The signature of the call, with the transaction context at its end. -/
def depositSignature : Signature :=
  ⟨1, ["0x2::coin::Coin", "&0x2::clock::Clock", "u64", "&mut 0x2::tx_context::TxContext"],
    ["0xa::pool::Receipt"]⟩

def depositPackage : PackageSignatures :=
  PackageSignatures.empty.insert "pool" "deposit" depositSignature

def depositSnapshot : SignatureSnapshot :=
  ⟨[("0x000000000000000000000000000000000000000000000000000000000000000a", depositPackage)]⟩

theorem decode_roundTrip_deposit :
    SignatureSnapshot.empty.insert "0xa" depositPackage = .ok depositSnapshot ∧
    deposit.compile [] = .ok depositProgram ∧
    Transaction.ofProgram depositProgram ⟨none, some 7⟩ = .ok depositTransaction ∧
    depositTransaction.commands.length = depositProgram.ops.length ∧
    ∃ d, Decoded.ofTransaction depositSnapshot.package depositTransaction = .ok d ∧
      d.hasErrors = false ∧ ∃ p', d.graph.compile [] = .ok p' ∧
        Transaction.ofProgram p' d.options = .ok depositTransaction := by
  have hcompile : deposit.compile [] = .ok depositProgram := by decide +kernel
  have hbuild : Transaction.ofProgram depositProgram ⟨none, some 7⟩ = .ok depositTransaction := by
    decide +kernel
  have hbytes : depositProgram.NoBytes := by
    constructor <;> simp [depositProgram, Program.operands, Operation.operands, Group.operands,
      Operand.NoBytes, Operand.Leaves, Lowering.constantLiteral]
  have hcommands : ∀ id c, .command id c ∈ deposit.nodes → c.Recoverable depositSnapshot := by
    intro id c hc
    simp only [deposit, List.mem_cons, List.not_mem_nil, or_false, Node.command.injEq, reduceCtorEq,
      false_or] at hc
    rcases hc with ⟨-, rfl⟩ | ⟨-, rfl⟩ | ⟨-, rfl⟩
    · trivial
    · exact ⟨by decide +kernel, depositPackage, depositSignature.withoutContext, by decide +kernel,
        by decide +kernel, by decide +kernel, by decide +kernel, by decide +kernel⟩
    · trivial
  have helements : ∀ c ∈ depositTransaction.commands, c.HasElements := by
    simp [depositTransaction, TxCommand.HasElements]
  obtain ⟨d, hd, htrip⟩ := decode_roundTrip hcompile hbuild hbytes hcommands helements
    (by decide +kernel)
  have hclean : d.hasErrors = false := by
    have hreport : (Decoded.ofTransaction depositSnapshot.package depositTransaction).map
        Decoded.hasErrors = .ok false := by
      decide +kernel
    rw [hd] at hreport
    exact Except.ok.inj hreport
  obtain ⟨p', t', hp', ht', -, -, -, hsame⟩ := htrip hclean []
  rw [hsame rfl (by decide +kernel)] at ht'
  exact ⟨by decide +kernel, hcompile, hbuild, rfl, d, hd, hclean, p', hp', ht'⟩

/-! ## An input that is listed twice -/

/-- A vector of vectors by its spelling, with one variable at both ports. -/
def listedTwice : Graph where
  nodes := [.start "s", .var ⟨"x", "x", .vector (.integer .u8), some (.arr [.int 1])⟩,
    .command "c" (.makeMoveVec (.objectOf "vector<u8>") 2 true), .finish "e"]
  edges := [.flow "s" "c", .flow "c" "e", .io "x" "out" "c" "in_elem_0" none,
    .io "x" "out" "c" "in_elem_1" none]

def listedTwiceProgram : Program where
  vars := [⟨"xs", .vector [.integer .u8 "1"]⟩]
  ops := [.makeMoveVec (some "vector<u8>") (.each [.ref "xs", .ref "xs"]) "items"]

def listedTwiceTransaction : Transaction where
  sender := none
  gasBudget := none
  inputs := [.pure (some "vector<u8>") [1, 1]]
  commands := [.makeMoveVec (some "vector<u8>") [.input 0, .input 0]]

/-- The decoded graph has one literal for the two elements. -/
def listedTwiceDecoded : Decoded where
  graph := {
    nodes := [.start "start", .finish "end", .var ⟨"gas", "gas", .anyObject, none⟩,
      .var ⟨"cmd_0_elems", "cmd_0_elems", .vector (.vector (.integer .u8)),
        some (.arr [.arr [.str "1"], .arr [.str "1"]])⟩,
      .command "cmd_0" (.makeMoveVec (.vector (.integer .u8)) 2 false)]
    edges := [.io "cmd_0_elems" "out" "cmd_0" "in_elems" none, .flow "start" "cmd_0",
      .flow "cmd_0" "end"] }
  diagnostics := [⟨.packed 2 "cmd_0_elems", some "cmd_0"⟩]
  options := ⟨none, none⟩

def listedTwiceAgain : Program where
  vars := [⟨"cmd_0_elems", .vector [.vector [.integer .u8 "1"], .vector [.integer .u8 "1"]]⟩]
  ops := [.makeMoveVec (some "vector<u8>") (.packed (.ref "cmd_0_elems")) "items"]

/-- An input that a vector of vectors lists twice becomes two inputs, although every command came
from an operation. -/
theorem roundTrip_listedTwice_ne :
    listedTwice.compile [] = .ok listedTwiceProgram ∧
    Transaction.ofProgram listedTwiceProgram ⟨none, none⟩ = .ok listedTwiceTransaction ∧
    listedTwiceProgram.NoBytes ∧
    (∀ id c, .command id c ∈ listedTwice.nodes → c.Recoverable .empty) ∧
    (∀ c ∈ listedTwiceTransaction.commands, c.HasElements) ∧
    Decoded.ofTransaction SignatureSnapshot.empty.package listedTwiceTransaction =
      .ok listedTwiceDecoded ∧
    listedTwiceDecoded.hasErrors = false ∧
    listedTwiceTransaction.commands.length = listedTwiceProgram.ops.length ∧
    listedTwiceDecoded.graph.compile [] = .ok listedTwiceAgain ∧
    ∃ t', Transaction.ofProgram listedTwiceAgain listedTwiceDecoded.options = .ok t' ∧
      t'.inputs.length = 2 ∧ t' ≠ listedTwiceTransaction := by
  refine ⟨by decide +kernel, by decide +kernel, ?_, ?_, ?_, by decide +kernel, by decide +kernel,
    rfl, by decide +kernel, ⟨none, none, [.pure (some "vector<u8>") [1, 1],
      .pure (some "vector<u8>") [1, 1]], [.makeMoveVec (some "vector<u8>") [.input 0, .input 1]]⟩,
    by decide +kernel, rfl, by decide⟩
  · constructor <;> simp [listedTwiceProgram, Program.operands, Operation.operands, Group.operands,
      Operand.NoBytes, Operand.Leaves, Operand.Leaves.all]
  · intro id c hc
    simp only [listedTwice, List.mem_cons, List.not_mem_nil, or_false, Node.command.injEq,
      reduceCtorEq, false_or] at hc
    obtain ⟨-, rfl⟩ := hc
    intro spelling hspelling
    cases hspelling
    decide +kernel
  · simp [listedTwiceTransaction, TxCommand.HasElements]

end TxGraph

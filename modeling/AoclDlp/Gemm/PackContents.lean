import AoclDlp.Gemm.Cells
import AoclDlp.Gemm.Rounds

/-!
# What the kernels read from the shared block

A block changes by the operations of its group alone.  The log of the group is
ordered by segments, so the panel is what the parts of the current round left,
and the sum of a column is what its packer added since it cleared it.
-/

namespace AoclDlp.Gemm.PackContents

open AoclDlp.Foundations.Memory
open AoclDlp.Foundations.RoundBarrier
open AoclDlp.Foundations.Rounding
open AoclDlp.Gemm.PackProtocol
open AoclDlp.Gemm.Rounds
open AoclDlp.Gemm.Rowvar
open AoclDlp.Layout.Chunk
open AoclDlp.Layout.Panel
open AoclDlp.Layout.ReorderRef
open AoclDlp.Layout.S8s8s32
open AoclDlp.Layout.TeamTiles

variable {args : GemmArgs} {b : Bytes} {rsB csB : Nat}

/-! ## The block of a group -/

/-- What an operation does to the block of its group. -/
def blockStep (args : GemmArgs) (b : Bytes) (rsB csB : Nat) (op : GemmOp)
    (buffer : ReorderBuffer) : ReorderBuffer :=
  match op with
  | .clear _ columnSum start stop =>
      { buffer with
        words := clearWords (columnSum + 4 * start) (stop - start)
          buffer.words }
  | .pack _ block start stop => args.packB b rsB csB block start stop buffer
  | .publish | .receive | .kernel _ _ | .free => buffer

/-- A block behind a list of operations of its group. -/
def blockAfter (args : GemmArgs) (b : Bytes) (rsB csB : Nat)
    (log : List (Event GemmOp)) (buffer : ReorderBuffer) : ReorderBuffer :=
  log.foldl
    (fun current event => blockStep args b rsB csB event.act current) buffer

theorem exec_heap (operand : args.b = .pack b rsB csB) {tid : Nat}
    {memory : GemmMemory} {op : GemmOp}
    (sees : UsesBuffer op → memory.packB tid = some (chief args tid))
    (block : Nat) :
    (args.exec tid memory op).heap block =
      if block = chief args tid then
        blockStep args b rsB csB op (memory.heap block)
      else memory.heap block := by
  have other : ∀ change : ReorderBuffer → ReorderBuffer,
      memory.packB tid = some (chief args tid) →
      (memory.onBuffer tid change).heap block =
        if block = chief args tid then change (memory.heap block)
        else memory.heap block := by
    intro change known
    unfold GemmMemory.onBuffer
    rw [known]
    by_cases here : block = chief args tid
    · rw [if_pos here, here]
      exact Function.update_self _ _ _
    · rw [if_neg here]
      exact Function.update_of_ne here _ _
  have still : (if block = chief args tid then memory.heap block
      else memory.heap block) = memory.heap block := by
    split <;> rfl
  cases op with
  | publish => exact still.symm
  | receive => exact still.symm
  | clear number columnSum start stop => exact other _ (sees trivial)
  | pack number round start stop =>
      unfold GemmArgs.exec
      rw [operand]
      exact other _ (sees trivial)
  | kernel number call =>
      unfold GemmArgs.exec
      dsimp only
      split
      · exact still.symm
      · exact still.symm
  | free =>
      unfold GemmArgs.exec
      dsimp only
      split
      · exact still.symm
      · exact still.symm

/-! ## Reachable states -/

section Reachable

variable {state : State GemmOp} {thread : Nat}

theorem chief_eq_iff (positive : 0 < args.icWays) (tid group : Nat) :
    args.icWays * group = chief args tid ↔ args.team.group tid = group := by
  change args.icWays * group = args.icWays * args.jcWorkId tid ↔
    args.jcWorkId tid = group
  rw [Nat.mul_right_inj positive.ne']
  exact eq_comm

/-- The blocks of a reachable state. -/
theorem heap_of_reachable (operand : args.b = .pack b rsB csB)
    (reachable : args.team.machine.Reachable state)
    (heap : Nat → ReorderBuffer) (c : Nat → BitVec 32) (group : Nat) :
    (args.memoryAfter state.log (GemmMemory.start heap c)).heap
        (args.icWays * group) =
      blockAfter args b rsB csB (args.team.groupLog group state.log)
        (heap (args.icWays * group)) := by
  have packing : PacksB args := ⟨b, rsB, csB, operand⟩
  induction reachable with
  | init start =>
      have same : _ = args.team.initial := start
      rw [same]
      rfl
  | @step state next before step ih =>
      cases step with
      | @run tid op rest inTeam todo =>
          have sees (uses : UsesBuffer op) :=
            sees_chief packing before heap c inTeam ⟨rest, todo⟩ uses
          change (args.memoryAfter (state.log ++ [_]) _).heap _ =
            blockAfter args b rsB csB
              (args.team.groupLog group (state.log ++ [_])) _
          rw [memoryAfter_append, exec_heap operand sees,
            Team.groupLog_append, ih]
          unfold blockAfter
          rw [List.foldl_append]
          by_cases own : args.team.group tid = group
          · rw [if_pos own,
              if_pos ((chief_eq_iff (icWays_pos inTeam) tid group).mpr own)]
            rfl
          · rw [if_neg own, if_neg fun same => own
              ((chief_eq_iff (icWays_pos inTeam) tid group).mp same)]
            rfl
      | pass _ _ _ _ => exact ih

end Reachable

/-! ## The panel as a matrix of its own -/

/-- The panel of a round, as the only tile of a matrix. -/
def panelTile (round : PackRound) : Tile :=
  ⟨0, round.nc0, 0, round.kc0, 0⟩

/-- B from the first element of a round on. -/
def roundOrigin (rsB csB : Nat) (round : PackRound) (b : Bytes) : Bytes :=
  fun address => b (rsB * round.pc + csB * round.jc + address)

theorem panelTile_placed (legal : S8Legal args.blksz) {round : PackRound}
    (shape : RoundShape args round) :
    (panelTile round).Placed legal.blocks round.nc0 round.kc0 where
  aligned := dvd_zero _
  nonempty := shape.nonempty
  row_dvd := dvd_zero _
  row_lt := shape.kc0_pos legal.KC_pos
  kc0_eq := by
    change round.kc0 = min (round.kc0 - 0) args.blksz.KC
    rw [shape.kc0_eq]
    omega
  ends := Or.inl (Nat.zero_add _)
  inPanel := by
    change 0 + round.nc0 ≤ blockStart 0 args.blksz.NC + args.blksz.NC
    have bound := shape.nc0_le
    omega
  off_eq := by
    change 0 = _
    have start : blockStart 0 (s8Blocks args.blksz).NC = 0 := by
      simp [blockStart]
    change 0 = (imageGrid legal.blocks round.nc0 round.kc0).base
      (blockStart 0 (s8Blocks args.blksz).NC) 0
      (0 - blockStart 0 (s8Blocks args.blksz).NC)
    rw [start]
    simp [AoclDlp.Foundations.BlockedGrid.Grid.base]

/-- The part of a thread is a slice of the panel. -/
theorem part_stored (legal : S8Legal args.blksz) {round : PackRound}
    (shape : RoundShape args round) {tid : Nat}
    (inTeam : tid < args.team.count) (packs : Packs args tid round) :
    Stored legal.blocks round.nc0 round.kc0
      ((panelTile round).slice (s8Blocks args.blksz)
        (args.packRange tid round.nc0).1
        (args.packRange tid round.nc0).2) := by
  have part := packRange_part inTeam round.nc0
  exact stored_of_placed ((panelTile_placed legal shape).slice
    part.start_dvd packs.1 part.ends)

/-- The pack kernel packs a slice of the panel. -/
theorem packTile_part (round : PackRound) (start stop : Nat)
    (image : Bytes) :
    packTile (s8Blocks args.blksz) (s8Shape args.n args.k rsB csB) b
        (GemmArgs.packTileOf round start stop) image =
      packTile (s8Blocks args.blksz)
        (s8Shape round.nc0 round.kc0 rsB csB)
        (roundOrigin rsB csB round b)
        ((panelTile round).slice (s8Blocks args.blksz) start stop)
        image := by
  have moves : tileMoves (s8Blocks args.blksz)
      (s8Shape args.n args.k rsB csB)
      (GemmArgs.packTileOf round start stop) =
        (tileMoves (s8Blocks args.blksz)
          (s8Shape round.nc0 round.kc0 rsB csB)
          ((panelTile round).slice (s8Blocks args.blksz) start stop)).map
          fun move => (move.1, rsB * round.pc + csB * round.jc + move.2) := by
    unfold tileMoves
    rw [List.map_map]
    apply List.map_congr_left
    intro move _
    refine Prod.ext ?_ ?_
    · change start * dlpReorderRoundUp round.kc0 4 + move.1 =
        0 + start * dlpReorderRoundUp round.kc0 4 + move.1
      rw [Nat.zero_add]
    · change rsB * round.pc + (round.jc + start) * csB + move.2 =
        rsB * round.pc + csB * round.jc +
          (rsB * 0 + (0 + start) * csB + move.2)
      ring
  have cleared : (GemmArgs.packTileOf round start stop).off =
      ((panelTile round).slice (s8Blocks args.blksz) start stop).off :=
    (Nat.zero_add _).symm
  have origin : (fun address => b ((rsB * round.pc + csB * round.jc) * 1 +
      address)) = roundOrigin rsB csB round b := by
    funext address
    rw [Nat.mul_one]
    rfl
  rw [packTile_eq_copyElems, packTile_eq_copyElems, moves, cleared]
  change copyElems 1 _ _ _ = _
  rw [copyElems_shift, origin]
  rfl

/-! ## The packed panel -/

/-- The parts of a round's panel that a log packs. -/
def partTiles (args : GemmArgs) (round : PackRound)
    (log : List (Event GemmOp)) : List Tile :=
  log.filterMap fun event =>
    match event.act with
    | .pack _ _ start stop =>
        some ((panelTile round).slice (s8Blocks args.blksz) start stop)
    | .publish | .receive | .clear _ _ _ _ | .kernel _ _ | .free => none

/-- A log that packs one round packs parts of its panel. -/
theorem image_of_round {round : PackRound} {log : List (Event GemmOp)}
    (single : ∀ event, event ∈ log → ∀ number block start stop,
      event.act = .pack number block start stop → block = round)
    (buffer : ReorderBuffer) :
    (blockAfter args b rsB csB log buffer).image =
      packTiles (s8Blocks args.blksz) (s8Shape round.nc0 round.kc0 rsB csB)
        (roundOrigin rsB csB round b) (partTiles args round log)
        buffer.image := by
  induction log generalizing buffer with
  | nil => rfl
  | cons event rest ih =>
      have later := ih
        (fun other member => single other (List.mem_cons_of_mem _ member))
        (blockStep args b rsB csB event.act buffer)
      have here := single event List.mem_cons_self
      rcases event with ⟨thread, segment, act⟩
      refine later.trans ?_
      cases act with
      | publish => rfl
      | receive => rfl
      | clear number columnSum start stop => rfl
      | kernel number call => rfl
      | free => rfl
      | pack number block start stop =>
          cases here number block start stop rfl
          change packTiles _ _ _ _ (packTile _ (s8Shape args.n args.k rsB csB)
            b (GemmArgs.packTileOf round start stop) buffer.image) = _
          rw [packTile_part]
          rfl

theorem placed_pack {thread segment number start stop : Nat}
    {block : PackRound}
    (placed : Placed args thread segment (.pack number block start stop)) :
    segment = 2 * number + 1 ∧
      (args.packRounds thread)[number]? = some block ∧
      start = (args.packRange thread block.nc0).1 ∧
      stop = (args.packRange thread block.nc0).2 ∧
      Packs args thread block := by
  cases placed with
  | pack found packs => exact ⟨rfl, found, rfl, rfl, packs⟩

section Panel

variable {state : State GemmOp} {thread number : Nat} {round : PackRound}

/-- Behind the packing barrier of a round, before the next round is packed. -/
structure AtKernels (args : GemmArgs) (state : State GemmOp)
    (thread number : Nat) (round : PackRound) : Prop where
  inTeam : thread < args.team.count
  found : (args.packRounds thread)[number]? = some round
  passed : (state.cursor thread).passed = 2 * number + 2
  latest : ∀ event, event ∈ state.log →
    args.team.group event.thread = args.team.group thread →
      event.segment ≤ 2 * number + 2

theorem atKernels_of_pends (packing : PacksB args)
    (inv : args.team.Inv state) (inTeam : thread < args.team.count)
    {call : KernelCall}
    (pends : (state.cursor thread).Pends (.kernel number call)) :
    ∃ round, AtKernels args state thread number round ∧
      Calls args thread round call := by
  rcases (placed_of_pends packing inv inTeam pends).kernel_segment with
    ⟨segment, round, found, calls⟩
  refine ⟨round, ⟨inTeam, found, segment, ?_⟩, calls⟩
  intro event logged sameGroup
  rw [← segment]
  exact inv.segment_le inTeam pends logged sameGroup

/-- What the group does from a round's packing on. -/
def sinceRound (args : GemmArgs) (state : State GemmOp)
    (thread number : Nat) : List (Event GemmOp) :=
  (args.team.groupLog (args.team.group thread) state.log).filter
    fun event => ¬ event.segment < 2 * number + 1

theorem mem_sinceRound {first : Nat} {event : Event GemmOp} :
    event ∈ sinceRound args state thread first ↔
      event ∈ state.log ∧
        args.team.group event.thread = args.team.group thread ∧
        2 * first + 1 ≤ event.segment := by
  unfold sinceRound
  rw [List.mem_filter, Team.mem_groupLog, and_assoc]
  simp

/-- The block of a group, split at a round. -/
theorem heap_split (operand : args.b = .pack b rsB csB)
    (reachable : args.team.machine.Reachable state)
    (heap : Nat → ReorderBuffer) (c : Nat → BitVec 32) (first : Nat) :
    ∃ before, (args.memoryAfter state.log (GemmMemory.start heap c)).heap
        (chief args thread) =
      blockAfter args b rsB csB (sinceRound args state thread first)
        before := by
  have ordered := (Team.inv_of_reachable reachable).groupLog_ordered
    (args.team.group thread)
  have split := Team.split_at_segment ordered (2 * first + 1)
  have contents := heap_of_reachable operand reachable heap c
    (args.team.group thread)
  rw [split, blockAfter, List.foldl_append] at contents
  exact ⟨_, contents⟩

/-- What is packed from a round's packing on belongs to the round. -/
theorem AtKernels.since_packs (packing : PacksB args)
    (inv : args.team.Inv state)
    (stands : AtKernels args state thread number round)
    {event : Event GemmOp}
    (member : event ∈ sinceRound args state thread number)
    {other start stop : Nat} {block : PackRound}
    (act : event.act = .pack other block start stop) :
    block = round ∧
      start = (args.packRange event.thread round.nc0).1 ∧
      stop = (args.packRange event.thread round.nc0).2 ∧
      event.thread < args.team.count ∧ Packs args event.thread round := by
  rcases mem_sinceRound.mp member with ⟨logged, sameGroup, since⟩
  have placed := placed_of_logged packing inv logged
  rw [act] at placed
  rcases placed_pack placed with ⟨segment, found, rfl, rfl, parts⟩
  have latest := stands.latest event logged sameGroup
  have same : other = number := by omega
  subst same
  have inTeam := (inv.logged event logged).1
  rw [packRounds_eq ⟨stands.inTeam, inTeam, sameGroup⟩, stands.found]
    at found
  cases found
  exact ⟨rfl, rfl, rfl, inTeam, parts⟩

/-- The packed parts are slices of the panel. -/
theorem AtKernels.parts_stored (legal : S8Legal args.blksz)
    (packing : PacksB args) (inv : args.team.Inv state)
    (stands : AtKernels args state thread number round) {tile : Tile}
    (member :
      tile ∈ partTiles args round (sinceRound args state thread number)) :
    Stored legal.blocks round.nc0 round.kc0 tile := by
  have shape := roundShape legal.NC_pos legal.KC_pos
    (List.mem_of_getElem? stands.found)
  rcases List.mem_filterMap.mp member with ⟨event, inLog, isPack⟩
  split at isPack
  next other block start stop act =>
    rcases stands.since_packs packing inv inLog act with
      ⟨rfl, rfl, rfl, inTeam, parts⟩
    rw [← Option.some.inj isPack]
    exact part_stored legal shape inTeam parts
  all_goals cases isPack

/-- The packed parts cover the panel. -/
theorem AtKernels.parts_cover (packing : PacksB args)
    (inv : args.team.Inv state)
    (stands : AtKernels args state thread number round) {kr col : Nat}
    (row : kr < round.kc0) (column : col < round.nc0) :
    ∃ tile,
      tile ∈ partTiles args round (sinceRound args state thread number) ∧
        InWindow tile kr col := by
  rcases existsUnique_packer stands.inTeam column with
    ⟨packer, ⟨mates, inRange⟩, -⟩
  have logged := packed_of_inRange packing inv mates stands.found
    (by rw [stands.passed]; omega) column inRange
  refine ⟨(panelTile round).slice (s8Blocks args.blksz)
    (args.packRange packer round.nc0).1
    (args.packRange packer round.nc0).2, ?_, ?_⟩
  · exact List.mem_filterMap.mpr
      ⟨_, mem_sinceRound.mpr ⟨logged, mates.group, le_rfl⟩, rfl⟩
  · have lower := inRange.1
    have upper := inRange.2
    change (0 ≤ kr ∧ kr < 0 + round.kc0) ∧
      (0 + (args.packRange packer round.nc0).1 ≤ col ∧
        col < 0 + (args.packRange packer round.nc0).1 +
          ((args.packRange packer round.nc0).2 -
            (args.packRange packer round.nc0).1))
    omega

/-- The panel that the kernels of a round read is the part of B. -/
theorem panel_image (legal : S8Legal args.blksz)
    (operand : args.b = .pack b rsB csB)
    (reachable : args.team.machine.Reachable state)
    (heap : Nat → ReorderBuffer) (c : Nat → BitVec 32)
    (stands : AtKernels args state thread number round) {kr col : Nat}
    (row : kr < round.kc0) (column : col < round.nc0) :
    ((args.memoryAfter state.log (GemmMemory.start heap c)).heap
        (chief args thread)).image
        (slotOf legal.blocks round.nc0 round.kc0 kr col) =
      b (rsB * (round.pc + kr) + csB * (round.jc + col)) := by
  have packing : PacksB args := ⟨b, rsB, csB, operand⟩
  have inv := Team.inv_of_reachable reachable
  rcases @heap_split args b rsB csB state thread operand reachable heap c
    number with ⟨before, contents⟩
  have single : ∀ event, event ∈ sinceRound args state thread number →
      ∀ other block start stop, event.act = .pack other block start stop →
        block = round :=
    fun event member other block start stop act =>
      (stands.since_packs packing inv member act).1
  rw [contents, image_of_round single,
    s8Tiles_at_slot legal
      (fun tile member => stands.parts_stored legal packing inv member) _ _
      row column (stands.parts_cover packing inv row column)]
  unfold roundOrigin
  congr 1
  ring

end Panel

/-- A call that reads a strip of a tile reads its elements at their slots. -/
theorem stripAddress_eq_slotOf (legal : S8Legal args.blksz) {n k : Nat}
    {tile : Tile} (placed : tile.Placed legal.blocks n k)
    {call : KernelCall} (aligned : args.blksz.NR ∣ call.jr)
    (inside : call.jr < tile.nc0)
    (width : call.nr0 = min (tile.nc0 - call.jr) args.blksz.NR)
    (height : call.kc0 = tile.kc0)
    (base : call.bAddress =
      tile.off + call.jr * dlpMakeMultipleOfN tile.kc0 4)
    {kr j : Nat} (row : kr < call.kc0) (column : j < call.nr0) :
    args.stripAddress call kr j =
      slotOf legal.blocks n k (tile.pc + kr) (tile.jc + call.jr + j) := by
  have shape : tile.slice (s8Blocks args.blksz) call.jr
      (call.jr + min (tile.nc0 - call.jr) args.blksz.NR) =
        ⟨tile.jc + call.jr, call.nr0, tile.pc, call.kc0, call.bAddress⟩ := by
    unfold Tile.slice
    rw [Nat.add_sub_cancel_left, width, height, base]
    rfl
  have strip := placed.strip aligned inside
  change (tile.slice (s8Blocks args.blksz) call.jr
    (call.jr + min (tile.nc0 - call.jr) args.blksz.NR)).Placed _ _ _ at strip
  rw [shape] at strip
  exact slotOf_eq_tile_offset strip row column

end AoclDlp.Gemm.PackContents

import Mathlib.Data.Nat.Basic

/-!
# Block sizes of the global contexts

`dlp_gemm_blksz_map.h` lists the cache and register block sizes of every
operation type, one map per processor generation, and
`_dlp_gemm_cntx_init_blksz_map` installs one of the maps at start-up.  The
operation types of the modelled drivers are kept.

Start-up sees the machine in two ways: the instruction sets it detects and the
architecture it is configured as, which the environment may lower.
-/

namespace AoclDlp.Config.BlockSize

/-- `AOCL_DLP_OPERATION_TYPE`, the types of the modelled drivers. -/
inductive OperationType where
  | u8s8s32os32
  | f32f32f32of32
  | bf16bf16f32of32
  | s8s8s32os32
  | bf16s4f32of32
  | f32obf16
  deriving DecidableEq, Repr

/-- `AOCL_DLP_MEMORY_TAG`. -/
inductive MemoryTag where
  | unpacked
  | pack
  | packKc
  | reordered
  deriving DecidableEq, Repr

/-- `dlp_gemm_block_size_t`. -/
structure DlpGemmBlockSize where
  MC : Nat
  NC : Nat
  KC : Nat
  MR : Nat
  NR : Nat
  deriving DecidableEq, Repr

/-- `dlp_arch_t`. -/
inductive DlpArch where
  | error
  | generic
  | zen6
  | zen5
  | zen4
  | zen3
  | zen2
  | zen
  deriving DecidableEq, Repr

/-- `ArchitectureType`: the Zen generations and the generic machines. -/
inductive ArchitectureType where
  | error
  | generic
  | zen6
  | zen5
  | zen4
  | zen3
  | zen2
  | zen
  | genericAvx512Fp16
  | genericAvx512Bf16
  | genericAvx512Vnni
  | genericAvx512
  | genericAvx2
  deriving DecidableEq, Repr

/--
What start-up reads from the processor and the environment: the detected
generation and instruction sets, the configured architecture, and whether
`AOCL_DLP_ENABLE_INSTRUCTIONS` is set.
-/
structure Processor where
  similarZen6 : Bool
  similarZen5 : Bool
  avx512 : Bool
  avx512vnni : Bool
  avx512bf16 : Bool
  thisArch : ArchitectureType
  enableInstruction : Bool
  deriving DecidableEq, Repr

namespace Processor

/-- `dlp_get_arch`. -/
def dlpGetArch (processor : Processor) : DlpArch :=
  match processor.thisArch with
  | .zen6 | .genericAvx512Fp16 => .zen6
  | .zen5 | .genericAvx512Bf16 => .zen5
  | .zen4 | .genericAvx512Vnni | .genericAvx512 => .zen4
  | .zen3 | .genericAvx2 => .zen3
  | .zen2 => .zen2
  | .zen => .zen
  | .generic => .generic
  | .error => .error

/-- `archConfigManager::setIsAvx512VnniConfigured`. -/
def isAvx512VnniConfigured (processor : Processor) : Bool :=
  (processor.thisArch == .genericAvx512Vnni ||
    processor.thisArch == .genericAvx512Bf16 ||
    processor.thisArch == .genericAvx512Fp16 ||
    processor.thisArch == .zen6 || processor.thisArch == .zen5 ||
    processor.thisArch == .zen4) && processor.avx512vnni

/-- `archConfigManager::setIsAvx512Bf16Configured`. -/
def isAvx512Bf16Configured (processor : Processor) : Bool :=
  (processor.thisArch == .genericAvx512Bf16 ||
    processor.thisArch == .genericAvx512Fp16 ||
    processor.thisArch == .zen6 || processor.thisArch == .zen5 ||
    processor.thisArch == .zen4) && processor.avx512bf16

/-- `archConfigManager::setIsZen6Configured`. -/
def isZen6Configured (processor : Processor) : Bool :=
  processor.thisArch == .zen6

/-- `archConfigManager::setIsZen5Configured`. -/
def isZen5Configured (processor : Processor) : Bool :=
  processor.thisArch == .zen5

/-- `_dlp_gemm_init_enable_arch`. -/
def dlpGemmGetEnabledArch (processor : Processor) : DlpArch :=
  if processor.enableInstruction = true ∧
      (processor.dlpGetArch = .zen3 ∨ processor.dlpGetArch = .zen2 ∨
        processor.dlpGetArch = .zen) then .zen3
  else processor.dlpGetArch

/-- The condition under which the BF16 entry points switch to F32 blocks. -/
def reroutesBf16 (processor : Processor) : Bool :=
  !processor.avx512bf16 || processor.dlpGetArch == .zen3 ||
    processor.dlpGetArch == .zen2 || processor.dlpGetArch == .zen

/-- A processor configured for native BF16 does not reroute. -/
theorem not_configured_of_reroutes {processor : Processor}
    (reroutes : processor.reroutesBf16 = true) :
    processor.isAvx512Bf16Configured = false := by
  rcases processor with ⟨_, _, _, _, bf16, arch, _⟩
  cases bf16 with
  | false => exact Bool.and_false _
  | true => cases arch <;> first | rfl | cases reroutes

end Processor

/-- `DLP_GEMM_BLKSZ_MAP_ZEN5`. -/
def dlpGemmBlkszMapZen5 : OperationType → DlpGemmBlockSize
  | .u8s8s32os32 => ⟨144, 1024, 2048, 6, 64⟩
  | .f32f32f32of32 => ⟨192, 8064, 1024, 6, 64⟩
  | .bf16bf16f32of32 => ⟨144, 1024, 4096, 6, 64⟩
  | .s8s8s32os32 => ⟨144, 1024, 2048, 6, 64⟩
  | .bf16s4f32of32 => ⟨144, 1024, 4096, 6, 64⟩
  | .f32obf16 => ⟨144, 1024, 4096, 6, 64⟩

/-- `DLP_GEMM_BLKSZ_MAP_ZEN6`. -/
def dlpGemmBlkszMapZen6 : OperationType → DlpGemmBlockSize
  | .u8s8s32os32 => ⟨144, 1024, 4096, 6, 64⟩
  | .f32f32f32of32 => ⟨192, 8064, 1024, 6, 64⟩
  | .bf16bf16f32of32 => ⟨144, 1024, 4096, 6, 64⟩
  | .s8s8s32os32 => ⟨144, 1024, 4096, 6, 64⟩
  | .bf16s4f32of32 => ⟨144, 1024, 4096, 6, 64⟩
  | .f32obf16 => ⟨144, 1024, 4096, 6, 64⟩

/-- `DLP_GEMM_BLKSZ_MAP_ZEN4`. -/
def dlpGemmBlkszMapZen4 : OperationType → DlpGemmBlockSize
  | .u8s8s32os32 => ⟨144, 1024, 2048, 6, 64⟩
  | .f32f32f32of32 => ⟨192, 8064, 512, 6, 64⟩
  | .bf16bf16f32of32 => ⟨144, 1024, 4096, 6, 64⟩
  | .s8s8s32os32 => ⟨144, 1024, 2048, 6, 64⟩
  | .bf16s4f32of32 => ⟨144, 1024, 4096, 6, 64⟩
  | .f32obf16 => ⟨144, 1024, 4096, 6, 64⟩

/-- `DLP_GEMM_BLKSZ_MAP_ZEN`. -/
def dlpGemmBlkszMapZen : OperationType → DlpGemmBlockSize
  | .u8s8s32os32 => ⟨144, 1024, 2048, 6, 64⟩
  | .f32f32f32of32 => ⟨144, 8160, 512, 6, 16⟩
  | .bf16bf16f32of32 => ⟨144, 1024, 4096, 6, 64⟩
  | .s8s8s32os32 => ⟨144, 1024, 2048, 6, 64⟩
  | .bf16s4f32of32 => ⟨144, 1024, 2048, 6, 64⟩
  | .f32obf16 => ⟨144, 1024, 2048, 6, 64⟩

/-- `DLP_GEMM_BLKSZ_UPD_MAP_ZEN4_TO_ZEN`, applied on top of a map. -/
def dlpGemmBlkszUpdMapZen4ToZen (map : OperationType → DlpGemmBlockSize) :
    OperationType → DlpGemmBlockSize
  | .f32f32f32of32 => ⟨144, 8160, 512, 6, 16⟩
  | operation => map operation

/-- The Zen3 override of an AVX512 map. -/
def withZen3Override (processor : Processor)
    (map : OperationType → DlpGemmBlockSize) :
    OperationType → DlpGemmBlockSize :=
  if processor.dlpGemmGetEnabledArch = .zen3 then
    dlpGemmBlkszUpdMapZen4ToZen map
  else map

/-- `_dlp_gemm_cntx_init_blksz_map`. -/
def dlpGemmCntxInitBlkszMap (processor : Processor) :
    OperationType → DlpGemmBlockSize :=
  if processor.similarZen6 then
    withZen3Override processor dlpGemmBlkszMapZen6
  else if processor.similarZen5 then
    withZen3Override processor dlpGemmBlkszMapZen5
  else if processor.avx512 then
    withZen3Override processor dlpGemmBlkszMapZen4
  else dlpGemmBlkszMapZen

/-- Every block size is positive. -/
structure PositiveBlocks (blksz : DlpGemmBlockSize) : Prop where
  MC_pos : 0 < blksz.MC
  NC_pos : 0 < blksz.NC
  KC_pos : 0 < blksz.KC
  MR_pos : 0 < blksz.MR
  NR_pos : 0 < blksz.NR

/-- Every installed entry is positive. -/
theorem blkszMap_positive (processor : Processor) (op : OperationType) :
    PositiveBlocks (dlpGemmCntxInitBlkszMap processor op) := by
  unfold dlpGemmCntxInitBlkszMap withZen3Override
  cases op <;> split_ifs <;> constructor <;> decide

end AoclDlp.Config.BlockSize

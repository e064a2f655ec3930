import Mathlib.Data.Nat.Notation
import Mathlib.Algebra.GroupWithZero.Nat
import Mathlib.Algebra.Group.Int.Defs

/-!
# Opcodes (`opcode.def` and the tables of `il_rewriter.cpp`)

The columns of `opcode.def` that the rewriter or the rules of the operand
stack read. An opcode is the position of its line: the second byte of a
two-byte opcode counts from `0x100`.
-/

namespace SignalFxTracing.Il

/-- The column of the operand that follows an opcode. -/
inductive OperandParams
  | inlineNone
  | shortInlineVar
  | inlineVar
  | shortInlineI
  | inlineI
  | inlineI8
  | shortInlineR
  | inlineR
  | shortInlineBrTarget
  | inlineBrTarget
  | inlineMethod
  | inlineField
  | inlineType
  | inlineString
  | inlineSig
  | inlineTok
  | inlineSwitch
  deriving DecidableEq

/-- The column of the control flow. -/
inductive ControlFlow
  | next
  | breakpoint
  | call
  | ret
  | branch
  | condBranch
  | throwing
  | prefixed
  deriving DecidableEq

/-- A line of `opcode.def`; `none` stands for `VarPop` and `VarPush`. -/
structure OpDef where
  name : String
  pop : Option Nat
  push : Option Nat
  args : OperandParams
  flow : ControlFlow

/-- The opcodes `0x00` to `0x7F`. -/
def opdefs00 : List OpDef :=
  [⟨"nop", some 0, some 0, .inlineNone, .next⟩,
    ⟨"break", some 0, some 0, .inlineNone, .breakpoint⟩,
    ⟨"ldarg.0", some 0, some 1, .inlineNone, .next⟩,
    ⟨"ldarg.1", some 0, some 1, .inlineNone, .next⟩,
    ⟨"ldarg.2", some 0, some 1, .inlineNone, .next⟩,
    ⟨"ldarg.3", some 0, some 1, .inlineNone, .next⟩,
    ⟨"ldloc.0", some 0, some 1, .inlineNone, .next⟩,
    ⟨"ldloc.1", some 0, some 1, .inlineNone, .next⟩,
    ⟨"ldloc.2", some 0, some 1, .inlineNone, .next⟩,
    ⟨"ldloc.3", some 0, some 1, .inlineNone, .next⟩,
    ⟨"stloc.0", some 1, some 0, .inlineNone, .next⟩,
    ⟨"stloc.1", some 1, some 0, .inlineNone, .next⟩,
    ⟨"stloc.2", some 1, some 0, .inlineNone, .next⟩,
    ⟨"stloc.3", some 1, some 0, .inlineNone, .next⟩,
    ⟨"ldarg.s", some 0, some 1, .shortInlineVar, .next⟩,
    ⟨"ldarga.s", some 0, some 1, .shortInlineVar, .next⟩,
    ⟨"starg.s", some 1, some 0, .shortInlineVar, .next⟩,
    ⟨"ldloc.s", some 0, some 1, .shortInlineVar, .next⟩,
    ⟨"ldloca.s", some 0, some 1, .shortInlineVar, .next⟩,
    ⟨"stloc.s", some 1, some 0, .shortInlineVar, .next⟩,
    ⟨"ldnull", some 0, some 1, .inlineNone, .next⟩,
    ⟨"ldc.i4.m1", some 0, some 1, .inlineNone, .next⟩,
    ⟨"ldc.i4.0", some 0, some 1, .inlineNone, .next⟩,
    ⟨"ldc.i4.1", some 0, some 1, .inlineNone, .next⟩,
    ⟨"ldc.i4.2", some 0, some 1, .inlineNone, .next⟩,
    ⟨"ldc.i4.3", some 0, some 1, .inlineNone, .next⟩,
    ⟨"ldc.i4.4", some 0, some 1, .inlineNone, .next⟩,
    ⟨"ldc.i4.5", some 0, some 1, .inlineNone, .next⟩,
    ⟨"ldc.i4.6", some 0, some 1, .inlineNone, .next⟩,
    ⟨"ldc.i4.7", some 0, some 1, .inlineNone, .next⟩,
    ⟨"ldc.i4.8", some 0, some 1, .inlineNone, .next⟩,
    ⟨"ldc.i4.s", some 0, some 1, .shortInlineI, .next⟩,
    ⟨"ldc.i4", some 0, some 1, .inlineI, .next⟩, ⟨"ldc.i8", some 0, some 1, .inlineI8, .next⟩,
    ⟨"ldc.r4", some 0, some 1, .shortInlineR, .next⟩, ⟨"ldc.r8", some 0, some 1, .inlineR, .next⟩,
    ⟨"unused", some 0, some 0, .inlineNone, .next⟩, ⟨"dup", some 1, some 2, .inlineNone, .next⟩,
    ⟨"pop", some 1, some 0, .inlineNone, .next⟩, ⟨"jmp", some 0, some 0, .inlineMethod, .call⟩,
    ⟨"call", none, none, .inlineMethod, .call⟩, ⟨"calli", none, none, .inlineSig, .call⟩,
    ⟨"ret", none, some 0, .inlineNone, .ret⟩,
    ⟨"br.s", some 0, some 0, .shortInlineBrTarget, .branch⟩,
    ⟨"brfalse.s", some 1, some 0, .shortInlineBrTarget, .condBranch⟩,
    ⟨"brtrue.s", some 1, some 0, .shortInlineBrTarget, .condBranch⟩,
    ⟨"beq.s", some 2, some 0, .shortInlineBrTarget, .condBranch⟩,
    ⟨"bge.s", some 2, some 0, .shortInlineBrTarget, .condBranch⟩,
    ⟨"bgt.s", some 2, some 0, .shortInlineBrTarget, .condBranch⟩,
    ⟨"ble.s", some 2, some 0, .shortInlineBrTarget, .condBranch⟩,
    ⟨"blt.s", some 2, some 0, .shortInlineBrTarget, .condBranch⟩,
    ⟨"bne.un.s", some 2, some 0, .shortInlineBrTarget, .condBranch⟩,
    ⟨"bge.un.s", some 2, some 0, .shortInlineBrTarget, .condBranch⟩,
    ⟨"bgt.un.s", some 2, some 0, .shortInlineBrTarget, .condBranch⟩,
    ⟨"ble.un.s", some 2, some 0, .shortInlineBrTarget, .condBranch⟩,
    ⟨"blt.un.s", some 2, some 0, .shortInlineBrTarget, .condBranch⟩,
    ⟨"br", some 0, some 0, .inlineBrTarget, .branch⟩,
    ⟨"brfalse", some 1, some 0, .inlineBrTarget, .condBranch⟩,
    ⟨"brtrue", some 1, some 0, .inlineBrTarget, .condBranch⟩,
    ⟨"beq", some 2, some 0, .inlineBrTarget, .condBranch⟩,
    ⟨"bge", some 2, some 0, .inlineBrTarget, .condBranch⟩,
    ⟨"bgt", some 2, some 0, .inlineBrTarget, .condBranch⟩,
    ⟨"ble", some 2, some 0, .inlineBrTarget, .condBranch⟩,
    ⟨"blt", some 2, some 0, .inlineBrTarget, .condBranch⟩,
    ⟨"bne.un", some 2, some 0, .inlineBrTarget, .condBranch⟩,
    ⟨"bge.un", some 2, some 0, .inlineBrTarget, .condBranch⟩,
    ⟨"bgt.un", some 2, some 0, .inlineBrTarget, .condBranch⟩,
    ⟨"ble.un", some 2, some 0, .inlineBrTarget, .condBranch⟩,
    ⟨"blt.un", some 2, some 0, .inlineBrTarget, .condBranch⟩,
    ⟨"switch", some 1, some 0, .inlineSwitch, .condBranch⟩,
    ⟨"ldind.i1", some 1, some 1, .inlineNone, .next⟩,
    ⟨"ldind.u1", some 1, some 1, .inlineNone, .next⟩,
    ⟨"ldind.i2", some 1, some 1, .inlineNone, .next⟩,
    ⟨"ldind.u2", some 1, some 1, .inlineNone, .next⟩,
    ⟨"ldind.i4", some 1, some 1, .inlineNone, .next⟩,
    ⟨"ldind.u4", some 1, some 1, .inlineNone, .next⟩,
    ⟨"ldind.i8", some 1, some 1, .inlineNone, .next⟩,
    ⟨"ldind.i", some 1, some 1, .inlineNone, .next⟩,
    ⟨"ldind.r4", some 1, some 1, .inlineNone, .next⟩,
    ⟨"ldind.r8", some 1, some 1, .inlineNone, .next⟩,
    ⟨"ldind.ref", some 1, some 1, .inlineNone, .next⟩,
    ⟨"stind.ref", some 2, some 0, .inlineNone, .next⟩,
    ⟨"stind.i1", some 2, some 0, .inlineNone, .next⟩,
    ⟨"stind.i2", some 2, some 0, .inlineNone, .next⟩,
    ⟨"stind.i4", some 2, some 0, .inlineNone, .next⟩,
    ⟨"stind.i8", some 2, some 0, .inlineNone, .next⟩,
    ⟨"stind.r4", some 2, some 0, .inlineNone, .next⟩,
    ⟨"stind.r8", some 2, some 0, .inlineNone, .next⟩, ⟨"add", some 2, some 1, .inlineNone, .next⟩,
    ⟨"sub", some 2, some 1, .inlineNone, .next⟩, ⟨"mul", some 2, some 1, .inlineNone, .next⟩,
    ⟨"div", some 2, some 1, .inlineNone, .next⟩, ⟨"div.un", some 2, some 1, .inlineNone, .next⟩,
    ⟨"rem", some 2, some 1, .inlineNone, .next⟩, ⟨"rem.un", some 2, some 1, .inlineNone, .next⟩,
    ⟨"and", some 2, some 1, .inlineNone, .next⟩, ⟨"or", some 2, some 1, .inlineNone, .next⟩,
    ⟨"xor", some 2, some 1, .inlineNone, .next⟩, ⟨"shl", some 2, some 1, .inlineNone, .next⟩,
    ⟨"shr", some 2, some 1, .inlineNone, .next⟩, ⟨"shr.un", some 2, some 1, .inlineNone, .next⟩,
    ⟨"neg", some 1, some 1, .inlineNone, .next⟩, ⟨"not", some 1, some 1, .inlineNone, .next⟩,
    ⟨"conv.i1", some 1, some 1, .inlineNone, .next⟩,
    ⟨"conv.i2", some 1, some 1, .inlineNone, .next⟩,
    ⟨"conv.i4", some 1, some 1, .inlineNone, .next⟩,
    ⟨"conv.i8", some 1, some 1, .inlineNone, .next⟩,
    ⟨"conv.r4", some 1, some 1, .inlineNone, .next⟩,
    ⟨"conv.r8", some 1, some 1, .inlineNone, .next⟩,
    ⟨"conv.u4", some 1, some 1, .inlineNone, .next⟩,
    ⟨"conv.u8", some 1, some 1, .inlineNone, .next⟩,
    ⟨"callvirt", none, none, .inlineMethod, .call⟩, ⟨"cpobj", some 2, some 0, .inlineType, .next⟩,
    ⟨"ldobj", some 1, some 1, .inlineType, .next⟩,
    ⟨"ldstr", some 0, some 1, .inlineString, .next⟩,
    ⟨"newobj", none, some 1, .inlineMethod, .call⟩,
    ⟨"castclass", some 1, some 1, .inlineType, .next⟩,
    ⟨"isinst", some 1, some 1, .inlineType, .next⟩,
    ⟨"conv.r.un", some 1, some 1, .inlineNone, .next⟩,
    ⟨"unused", some 0, some 0, .inlineNone, .next⟩,
    ⟨"unused", some 0, some 0, .inlineNone, .next⟩, ⟨"unbox", some 1, some 1, .inlineType, .next⟩,
    ⟨"throw", some 1, some 0, .inlineNone, .throwing⟩,
    ⟨"ldfld", some 1, some 1, .inlineField, .next⟩,
    ⟨"ldflda", some 1, some 1, .inlineField, .next⟩,
    ⟨"stfld", some 2, some 0, .inlineField, .next⟩,
    ⟨"ldsfld", some 0, some 1, .inlineField, .next⟩,
    ⟨"ldsflda", some 0, some 1, .inlineField, .next⟩]

/-- The opcodes `0x80` to `0xFF`. -/
def opdefs80 : List OpDef :=
  [⟨"stsfld", some 1, some 0, .inlineField, .next⟩, ⟨"stobj", some 2, some 0, .inlineType, .next⟩,
    ⟨"conv.ovf.i1.un", some 1, some 1, .inlineNone, .next⟩,
    ⟨"conv.ovf.i2.un", some 1, some 1, .inlineNone, .next⟩,
    ⟨"conv.ovf.i4.un", some 1, some 1, .inlineNone, .next⟩,
    ⟨"conv.ovf.i8.un", some 1, some 1, .inlineNone, .next⟩,
    ⟨"conv.ovf.u1.un", some 1, some 1, .inlineNone, .next⟩,
    ⟨"conv.ovf.u2.un", some 1, some 1, .inlineNone, .next⟩,
    ⟨"conv.ovf.u4.un", some 1, some 1, .inlineNone, .next⟩,
    ⟨"conv.ovf.u8.un", some 1, some 1, .inlineNone, .next⟩,
    ⟨"conv.ovf.i.un", some 1, some 1, .inlineNone, .next⟩,
    ⟨"conv.ovf.u.un", some 1, some 1, .inlineNone, .next⟩,
    ⟨"box", some 1, some 1, .inlineType, .next⟩, ⟨"newarr", some 1, some 1, .inlineType, .next⟩,
    ⟨"ldlen", some 1, some 1, .inlineNone, .next⟩,
    ⟨"ldelema", some 2, some 1, .inlineType, .next⟩,
    ⟨"ldelem.i1", some 2, some 1, .inlineNone, .next⟩,
    ⟨"ldelem.u1", some 2, some 1, .inlineNone, .next⟩,
    ⟨"ldelem.i2", some 2, some 1, .inlineNone, .next⟩,
    ⟨"ldelem.u2", some 2, some 1, .inlineNone, .next⟩,
    ⟨"ldelem.i4", some 2, some 1, .inlineNone, .next⟩,
    ⟨"ldelem.u4", some 2, some 1, .inlineNone, .next⟩,
    ⟨"ldelem.i8", some 2, some 1, .inlineNone, .next⟩,
    ⟨"ldelem.i", some 2, some 1, .inlineNone, .next⟩,
    ⟨"ldelem.r4", some 2, some 1, .inlineNone, .next⟩,
    ⟨"ldelem.r8", some 2, some 1, .inlineNone, .next⟩,
    ⟨"ldelem.ref", some 2, some 1, .inlineNone, .next⟩,
    ⟨"stelem.i", some 3, some 0, .inlineNone, .next⟩,
    ⟨"stelem.i1", some 3, some 0, .inlineNone, .next⟩,
    ⟨"stelem.i2", some 3, some 0, .inlineNone, .next⟩,
    ⟨"stelem.i4", some 3, some 0, .inlineNone, .next⟩,
    ⟨"stelem.i8", some 3, some 0, .inlineNone, .next⟩,
    ⟨"stelem.r4", some 3, some 0, .inlineNone, .next⟩,
    ⟨"stelem.r8", some 3, some 0, .inlineNone, .next⟩,
    ⟨"stelem.ref", some 3, some 0, .inlineNone, .next⟩,
    ⟨"ldelem", some 2, some 1, .inlineType, .next⟩,
    ⟨"stelem", some 3, some 0, .inlineType, .next⟩,
    ⟨"unbox.any", some 1, some 1, .inlineType, .next⟩,
    ⟨"unused", some 0, some 0, .inlineNone, .next⟩,
    ⟨"unused", some 0, some 0, .inlineNone, .next⟩,
    ⟨"unused", some 0, some 0, .inlineNone, .next⟩,
    ⟨"unused", some 0, some 0, .inlineNone, .next⟩,
    ⟨"unused", some 0, some 0, .inlineNone, .next⟩,
    ⟨"unused", some 0, some 0, .inlineNone, .next⟩,
    ⟨"unused", some 0, some 0, .inlineNone, .next⟩,
    ⟨"unused", some 0, some 0, .inlineNone, .next⟩,
    ⟨"unused", some 0, some 0, .inlineNone, .next⟩,
    ⟨"unused", some 0, some 0, .inlineNone, .next⟩,
    ⟨"unused", some 0, some 0, .inlineNone, .next⟩,
    ⟨"unused", some 0, some 0, .inlineNone, .next⟩,
    ⟨"unused", some 0, some 0, .inlineNone, .next⟩,
    ⟨"conv.ovf.i1", some 1, some 1, .inlineNone, .next⟩,
    ⟨"conv.ovf.u1", some 1, some 1, .inlineNone, .next⟩,
    ⟨"conv.ovf.i2", some 1, some 1, .inlineNone, .next⟩,
    ⟨"conv.ovf.u2", some 1, some 1, .inlineNone, .next⟩,
    ⟨"conv.ovf.i4", some 1, some 1, .inlineNone, .next⟩,
    ⟨"conv.ovf.u4", some 1, some 1, .inlineNone, .next⟩,
    ⟨"conv.ovf.i8", some 1, some 1, .inlineNone, .next⟩,
    ⟨"conv.ovf.u8", some 1, some 1, .inlineNone, .next⟩,
    ⟨"unused", some 0, some 0, .inlineNone, .next⟩,
    ⟨"unused", some 0, some 0, .inlineNone, .next⟩,
    ⟨"unused", some 0, some 0, .inlineNone, .next⟩,
    ⟨"unused", some 0, some 0, .inlineNone, .next⟩,
    ⟨"unused", some 0, some 0, .inlineNone, .next⟩,
    ⟨"unused", some 0, some 0, .inlineNone, .next⟩,
    ⟨"unused", some 0, some 0, .inlineNone, .next⟩,
    ⟨"refanyval", some 1, some 1, .inlineType, .next⟩,
    ⟨"ckfinite", some 1, some 1, .inlineNone, .next⟩,
    ⟨"unused", some 0, some 0, .inlineNone, .next⟩,
    ⟨"unused", some 0, some 0, .inlineNone, .next⟩,
    ⟨"mkrefany", some 1, some 1, .inlineType, .next⟩,
    ⟨"unused", some 0, some 0, .inlineNone, .next⟩,
    ⟨"unused", some 0, some 0, .inlineNone, .next⟩,
    ⟨"unused", some 0, some 0, .inlineNone, .next⟩,
    ⟨"unused", some 0, some 0, .inlineNone, .next⟩,
    ⟨"unused", some 0, some 0, .inlineNone, .next⟩,
    ⟨"unused", some 0, some 0, .inlineNone, .next⟩,
    ⟨"unused", some 0, some 0, .inlineNone, .next⟩,
    ⟨"unused", some 0, some 0, .inlineNone, .next⟩,
    ⟨"unused", some 0, some 0, .inlineNone, .next⟩,
    ⟨"ldtoken", some 0, some 1, .inlineTok, .next⟩,
    ⟨"conv.u2", some 1, some 1, .inlineNone, .next⟩,
    ⟨"conv.u1", some 1, some 1, .inlineNone, .next⟩,
    ⟨"conv.i", some 1, some 1, .inlineNone, .next⟩,
    ⟨"conv.ovf.i", some 1, some 1, .inlineNone, .next⟩,
    ⟨"conv.ovf.u", some 1, some 1, .inlineNone, .next⟩,
    ⟨"add.ovf", some 2, some 1, .inlineNone, .next⟩,
    ⟨"add.ovf.un", some 2, some 1, .inlineNone, .next⟩,
    ⟨"mul.ovf", some 2, some 1, .inlineNone, .next⟩,
    ⟨"mul.ovf.un", some 2, some 1, .inlineNone, .next⟩,
    ⟨"sub.ovf", some 2, some 1, .inlineNone, .next⟩,
    ⟨"sub.ovf.un", some 2, some 1, .inlineNone, .next⟩,
    ⟨"endfinally", some 0, some 0, .inlineNone, .ret⟩,
    ⟨"leave", some 0, some 0, .inlineBrTarget, .branch⟩,
    ⟨"leave.s", some 0, some 0, .shortInlineBrTarget, .branch⟩,
    ⟨"stind.i", some 2, some 0, .inlineNone, .next⟩,
    ⟨"conv.u", some 1, some 1, .inlineNone, .next⟩,
    ⟨"unused", some 0, some 0, .inlineNone, .next⟩,
    ⟨"unused", some 0, some 0, .inlineNone, .next⟩,
    ⟨"unused", some 0, some 0, .inlineNone, .next⟩,
    ⟨"unused", some 0, some 0, .inlineNone, .next⟩,
    ⟨"unused", some 0, some 0, .inlineNone, .next⟩,
    ⟨"unused", some 0, some 0, .inlineNone, .next⟩,
    ⟨"unused", some 0, some 0, .inlineNone, .next⟩,
    ⟨"unused", some 0, some 0, .inlineNone, .next⟩,
    ⟨"unused", some 0, some 0, .inlineNone, .next⟩,
    ⟨"unused", some 0, some 0, .inlineNone, .next⟩,
    ⟨"unused", some 0, some 0, .inlineNone, .next⟩,
    ⟨"unused", some 0, some 0, .inlineNone, .next⟩,
    ⟨"unused", some 0, some 0, .inlineNone, .next⟩,
    ⟨"unused", some 0, some 0, .inlineNone, .next⟩,
    ⟨"unused", some 0, some 0, .inlineNone, .next⟩,
    ⟨"unused", some 0, some 0, .inlineNone, .next⟩,
    ⟨"unused", some 0, some 0, .inlineNone, .next⟩,
    ⟨"unused", some 0, some 0, .inlineNone, .next⟩,
    ⟨"unused", some 0, some 0, .inlineNone, .next⟩,
    ⟨"unused", some 0, some 0, .inlineNone, .next⟩,
    ⟨"unused", some 0, some 0, .inlineNone, .next⟩,
    ⟨"unused", some 0, some 0, .inlineNone, .next⟩,
    ⟨"unused", some 0, some 0, .inlineNone, .next⟩,
    ⟨"prefix7", some 0, some 0, .inlineNone, .prefixed⟩,
    ⟨"prefix6", some 0, some 0, .inlineNone, .prefixed⟩,
    ⟨"prefix5", some 0, some 0, .inlineNone, .prefixed⟩,
    ⟨"prefix4", some 0, some 0, .inlineNone, .prefixed⟩,
    ⟨"prefix3", some 0, some 0, .inlineNone, .prefixed⟩,
    ⟨"prefix2", some 0, some 0, .inlineNone, .prefixed⟩,
    ⟨"prefix1", some 0, some 0, .inlineNone, .prefixed⟩,
    ⟨"prefixref", some 0, some 0, .inlineNone, .prefixed⟩]

/-- The opcodes that follow the lead byte `CEE_PREFIX1`. -/
def opdefsFE : List OpDef :=
  [⟨"arglist", some 0, some 1, .inlineNone, .next⟩, ⟨"ceq", some 2, some 1, .inlineNone, .next⟩,
    ⟨"cgt", some 2, some 1, .inlineNone, .next⟩, ⟨"cgt.un", some 2, some 1, .inlineNone, .next⟩,
    ⟨"clt", some 2, some 1, .inlineNone, .next⟩, ⟨"clt.un", some 2, some 1, .inlineNone, .next⟩,
    ⟨"ldftn", some 0, some 1, .inlineMethod, .next⟩,
    ⟨"ldvirtftn", some 1, some 1, .inlineMethod, .next⟩,
    ⟨"unused", some 0, some 0, .inlineNone, .next⟩, ⟨"ldarg", some 0, some 1, .inlineVar, .next⟩,
    ⟨"ldarga", some 0, some 1, .inlineVar, .next⟩, ⟨"starg", some 1, some 0, .inlineVar, .next⟩,
    ⟨"ldloc", some 0, some 1, .inlineVar, .next⟩, ⟨"ldloca", some 0, some 1, .inlineVar, .next⟩,
    ⟨"stloc", some 1, some 0, .inlineVar, .next⟩,
    ⟨"localloc", some 1, some 1, .inlineNone, .next⟩,
    ⟨"unused", some 0, some 0, .inlineNone, .next⟩,
    ⟨"endfilter", some 1, some 0, .inlineNone, .ret⟩,
    ⟨"unaligned.", some 0, some 0, .shortInlineI, .prefixed⟩,
    ⟨"volatile.", some 0, some 0, .inlineNone, .prefixed⟩,
    ⟨"tail.", some 0, some 0, .inlineNone, .prefixed⟩,
    ⟨"initobj", some 1, some 0, .inlineType, .next⟩,
    ⟨"constrained.", some 0, some 0, .inlineType, .prefixed⟩,
    ⟨"cpblk", some 3, some 0, .inlineNone, .next⟩,
    ⟨"initblk", some 3, some 0, .inlineNone, .next⟩,
    ⟨"unused", some 0, some 0, .inlineNone, .next⟩,
    ⟨"rethrow", some 0, some 0, .inlineNone, .throwing⟩,
    ⟨"unused", some 0, some 0, .inlineNone, .next⟩,
    ⟨"sizeof", some 0, some 1, .inlineType, .next⟩,
    ⟨"refanytype", some 1, some 1, .inlineNone, .next⟩,
    ⟨"readonly.", some 0, some 0, .inlineNone, .prefixed⟩,
    ⟨"unused", some 0, some 0, .inlineNone, .next⟩,
    ⟨"unused", some 0, some 0, .inlineNone, .next⟩,
    ⟨"unused", some 0, some 0, .inlineNone, .next⟩,
    ⟨"unused", some 0, some 0, .inlineNone, .next⟩,
    ⟨"illegal", some 0, some 0, .inlineNone, .prefixed⟩,
    ⟨"endmac", some 0, some 0, .inlineNone, .prefixed⟩,
    ⟨"codelabel", some 0, some 0, .inlineNone, .prefixed⟩]

/-- The lines of `opcode.def`, in order. -/
def opdefs : List OpDef := opdefs00 ++ opdefs80 ++ opdefsFE

section Names

def CEE_NOP : Nat := 0x00

def CEE_LDC_I4_0 : Nat := 0x16

def CEE_LDC_I4_S : Nat := 0x1F

def CEE_LDC_I4 : Nat := 0x20

def CEE_LDC_I8 : Nat := 0x21

def CEE_JMP : Nat := 0x27

def CEE_CALL : Nat := 0x28

def CEE_BR_S : Nat := 0x2B

def CEE_BLT_UN_S : Nat := 0x37

def CEE_BR : Nat := 0x38

def CEE_BLT_UN : Nat := 0x44

def CEE_SWITCH : Nat := 0x45

def CEE_CALLVIRT : Nat := 0x6F

def CEE_BOX : Nat := 0x8C

def CEE_UNBOX_ANY : Nat := 0xA5

def CEE_ENDFINALLY : Nat := 0xDC

def CEE_LEAVE : Nat := 0xDD

def CEE_LEAVE_S : Nat := 0xDE

def CEE_PREFIX7 : Nat := 0xF8

def CEE_PREFIX2 : Nat := 0xFD

def CEE_PREFIX1 : Nat := 0xFE

def CEE_ENDFILTER : Nat := 0x111

def CEE_UNALIGNED : Nat := 0x112

def CEE_VOLATILE : Nat := 0x113

def CEE_TAILCALL : Nat := 0x114

def CEE_CONSTRAINED : Nat := 0x116

def CEE_READONLY : Nat := 0x11E

/-- The number of opcodes. -/
def CEE_COUNT : Nat := 0x126

/-- The instruction that stands for one entry of the table of a switch. -/
def CEE_SWITCH_ARG : Nat := 0x127

end Names

/-- `s_OpCodeFlags`: the size of the operand and what it is. -/
inductive OpCodeFlags
  | operand (size : Nat)
  | branchTarget (size : Nat)
  | switch
  deriving DecidableEq

/-- The macros that give the operand columns their flags. -/
def OperandParams.flags : OperandParams → OpCodeFlags
  | inlineNone => .operand 0
  | shortInlineVar => .operand 1
  | inlineVar => .operand 2
  | shortInlineI => .operand 1
  | inlineI => .operand 4
  | inlineI8 => .operand 8
  | shortInlineR => .operand 4
  | inlineR => .operand 8
  | shortInlineBrTarget => .branchTarget 1
  | inlineBrTarget => .branchTarget 4
  | inlineMethod | inlineField | inlineType | inlineString | inlineSig | inlineTok => .operand 4
  | inlineSwitch => .switch

/-- `s_OpCodeFlags[opcode]`. -/
def opCodeFlags (opcode : Nat) : OpCodeFlags :=
  if opcode = CEE_SWITCH_ARG then .branchTarget 4
  else
    match opdefs[opcode]? with
    | some opdef => opdef.args.flags
    | none => .operand 0

/-- `k_rgnStackPushes[opcode]`, in which `VarPush` counts as one. -/
def rgnStackPushes (opcode : Nat) : Nat :=
  match opdefs[opcode]? with
  | some opdef => opdef.push.getD 1
  | none => 0

theorem opdefs_length : opdefs.length = CEE_COUNT := by decide +kernel

end SignalFxTracing.Il

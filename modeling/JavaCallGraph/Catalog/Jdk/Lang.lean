import JavaCallGraph.Catalog.Jdk.Record

/-!
# The built-in catalog: java.lang
-/

set_option autoImplicit false

namespace JavaCallGraph.Catalog.Jdk

/-- `java.lang.Object`. -/
def objectType : CompiledType where
  name := "java.lang.Object"
  isInterface := false
  superclass := none
  interfaces := []
  methods := [
    method "equals" ["java.lang.Object"] "boolean",
    method "hashCode" [] "int",
    method "toString" [] "java.lang.String",
    method "getClass" [] "java.lang.Class",
    method "notify" [] "void",
    method "wait" [] "void"]
  fields := []

/-- `java.lang.CharSequence`. -/
def charSequenceType : CompiledType where
  name := "java.lang.CharSequence"
  isInterface := true
  superclass := none
  interfaces := []
  methods := [
    method "length" [] "int",
    method "charAt" ["int"] "char",
    method "toString" [] "java.lang.String",
    method "isEmpty" [] "boolean"]
  fields := []

/-- `java.lang.Comparable`. -/
def comparableType : CompiledType where
  name := "java.lang.Comparable"
  isInterface := true
  superclass := none
  interfaces := []
  methods := [method "compareTo" ["java.lang.Object"] "int"]
  fields := []

/-- `java.lang.Cloneable`. -/
def cloneableType : CompiledType where
  name := "java.lang.Cloneable"
  isInterface := true
  superclass := none
  interfaces := []
  methods := []
  fields := []

/-- `java.lang.AutoCloseable`. -/
def autoCloseableType : CompiledType where
  name := "java.lang.AutoCloseable"
  isInterface := true
  superclass := none
  interfaces := []
  methods := [method "close" [] "void"]
  fields := []

/-- `java.lang.Iterable`. -/
def iterableType : CompiledType where
  name := "java.lang.Iterable"
  isInterface := true
  superclass := none
  interfaces := []
  methods := [
    method "iterator" [] "java.util.Iterator",
    method "forEach" ["java.util.function.Consumer"] "void"]
  fields := []

/-- `java.lang.String`. -/
def stringType : CompiledType where
  name := "java.lang.String"
  isInterface := false
  superclass := none
  interfaces := ["java.io.Serializable", "java.lang.Comparable", "java.lang.CharSequence"]
  methods := [
    method "length" [] "int",
    method "isEmpty" [] "boolean",
    method "isBlank" [] "boolean",
    method "charAt" ["int"] "char",
    method "equals" ["java.lang.Object"] "boolean",
    method "equalsIgnoreCase" ["java.lang.String"] "boolean",
    method "compareTo" ["java.lang.String"] "int",
    method "startsWith" ["java.lang.String"] "boolean",
    method "endsWith" ["java.lang.String"] "boolean",
    method "contains" ["java.lang.CharSequence"] "boolean",
    method "indexOf" ["java.lang.String"] "int",
    method "indexOf" ["int"] "int",
    method "substring" ["int"] "java.lang.String",
    method "substring" ["int", "int"] "java.lang.String",
    method "trim" [] "java.lang.String",
    method "strip" [] "java.lang.String",
    method "toUpperCase" [] "java.lang.String",
    method "toLowerCase" [] "java.lang.String",
    method "concat" ["java.lang.String"] "java.lang.String",
    method "replace" ["java.lang.CharSequence", "java.lang.CharSequence"] "java.lang.String",
    method "replace" ["char", "char"] "java.lang.String",
    method "split" ["java.lang.String"] "java.lang.String[]",
    method "toCharArray" [] "char[]",
    method "getBytes" [] "byte[]",
    method "repeat" ["int"] "java.lang.String",
    static "valueOf" ["java.lang.Object"] "java.lang.String",
    static "valueOf" ["int"] "java.lang.String",
    static "valueOf" ["long"] "java.lang.String",
    static "valueOf" ["float"] "java.lang.String",
    static "valueOf" ["double"] "java.lang.String",
    static "valueOf" ["char"] "java.lang.String",
    static "valueOf" ["boolean"] "java.lang.String",
    static "valueOf" ["char[]"] "java.lang.String",
    staticVarargs "format" ["java.lang.String", "java.lang.Object[]"] "java.lang.String",
    staticVarargs "join" ["java.lang.CharSequence", "java.lang.CharSequence[]"] "java.lang.String",
    static "join" ["java.lang.CharSequence", "java.lang.Iterable"] "java.lang.String"]
  fields := []

/-- `java.lang.AbstractStringBuilder`. -/
def abstractStringBuilderType : CompiledType where
  name := "java.lang.AbstractStringBuilder"
  isInterface := false
  superclass := some "java.lang.Object"
  interfaces := ["java.lang.CharSequence"]
  methods := []
  fields := []

/-- `java.lang.StringBuilder`. -/
def stringBuilderType : CompiledType where
  name := "java.lang.StringBuilder"
  isInterface := false
  superclass := none
  interfaces := ["java.lang.CharSequence", "java.io.Serializable"]
  methods := [
    method "append" ["java.lang.String"] "java.lang.StringBuilder",
    method "append" ["java.lang.Object"] "java.lang.StringBuilder",
    method "append" ["int"] "java.lang.StringBuilder",
    method "append" ["long"] "java.lang.StringBuilder",
    method "append" ["char"] "java.lang.StringBuilder",
    method "append" ["double"] "java.lang.StringBuilder",
    method "append" ["boolean"] "java.lang.StringBuilder",
    method "append" ["java.lang.CharSequence"] "java.lang.StringBuilder",
    method "insert" ["int", "java.lang.String"] "java.lang.StringBuilder",
    method "reverse" [] "java.lang.StringBuilder",
    method "length" [] "int",
    method "toString" [] "java.lang.String",
    method "setLength" ["int"] "void"]
  fields := []

/-- `java.lang.Number`. -/
def numberType : CompiledType where
  name := "java.lang.Number"
  isInterface := false
  superclass := none
  interfaces := ["java.io.Serializable"]
  methods := [
    method "intValue" [] "int",
    method "longValue" [] "long",
    method "floatValue" [] "float",
    method "doubleValue" [] "double",
    method "shortValue" [] "short",
    method "byteValue" [] "byte"]
  fields := []

/-- `java.lang.Integer`. -/
def integerType : CompiledType where
  name := "java.lang.Integer"
  isInterface := false
  superclass := some "java.lang.Number"
  interfaces := ["java.lang.Comparable"]
  methods := [
    static "valueOf" ["int"] "java.lang.Integer",
    static "valueOf" ["java.lang.String"] "java.lang.Integer",
    method "toString" [] "java.lang.String",
    static "toString" ["int"] "java.lang.String",
    method "compareTo" ["java.lang.Integer"] "int",
    method "equals" ["java.lang.Object"] "boolean",
    method "hashCode" [] "int",
    static "compare" ["int", "int"] "int",
    static "parseInt" ["java.lang.String"] "int",
    static "sum" ["int", "int"] "int",
    static "max" ["int", "int"] "int",
    static "min" ["int", "int"] "int"]
  fields := [constant "MAX_VALUE" "int", constant "MIN_VALUE" "int"]

/-- `java.lang.Long`. -/
def longType : CompiledType where
  name := "java.lang.Long"
  isInterface := false
  superclass := some "java.lang.Number"
  interfaces := ["java.lang.Comparable"]
  methods := [
    static "valueOf" ["long"] "java.lang.Long",
    static "valueOf" ["java.lang.String"] "java.lang.Long",
    method "toString" [] "java.lang.String",
    static "toString" ["long"] "java.lang.String",
    method "compareTo" ["java.lang.Long"] "int",
    method "equals" ["java.lang.Object"] "boolean",
    method "hashCode" [] "int",
    static "compare" ["long", "long"] "int",
    static "parseLong" ["java.lang.String"] "long",
    static "sum" ["long", "long"] "long",
    static "max" ["long", "long"] "long",
    static "min" ["long", "long"] "long"]
  fields := [constant "MAX_VALUE" "long", constant "MIN_VALUE" "long"]

/-- `java.lang.Double`. -/
def doubleType : CompiledType where
  name := "java.lang.Double"
  isInterface := false
  superclass := some "java.lang.Number"
  interfaces := ["java.lang.Comparable"]
  methods := [
    static "valueOf" ["double"] "java.lang.Double",
    static "valueOf" ["java.lang.String"] "java.lang.Double",
    method "toString" [] "java.lang.String",
    static "toString" ["double"] "java.lang.String",
    method "compareTo" ["java.lang.Double"] "int",
    method "equals" ["java.lang.Object"] "boolean",
    method "hashCode" [] "int",
    static "compare" ["double", "double"] "int",
    static "parseDouble" ["java.lang.String"] "double"]
  fields := [constant "MAX_VALUE" "double", constant "MIN_VALUE" "double"]

/-- `java.lang.Float`. -/
def floatType : CompiledType where
  name := "java.lang.Float"
  isInterface := false
  superclass := some "java.lang.Number"
  interfaces := ["java.lang.Comparable"]
  methods := [
    static "valueOf" ["float"] "java.lang.Float",
    static "valueOf" ["java.lang.String"] "java.lang.Float",
    method "toString" [] "java.lang.String",
    static "toString" ["float"] "java.lang.String",
    method "compareTo" ["java.lang.Float"] "int",
    method "equals" ["java.lang.Object"] "boolean",
    method "hashCode" [] "int",
    static "compare" ["float", "float"] "int",
    static "parseFloat" ["java.lang.String"] "float"]
  fields := [constant "MAX_VALUE" "float", constant "MIN_VALUE" "float"]

/-- `java.lang.Short`. -/
def shortType : CompiledType where
  name := "java.lang.Short"
  isInterface := false
  superclass := some "java.lang.Number"
  interfaces := ["java.lang.Comparable"]
  methods := [
    static "valueOf" ["short"] "java.lang.Short",
    static "valueOf" ["java.lang.String"] "java.lang.Short",
    method "toString" [] "java.lang.String",
    static "toString" ["short"] "java.lang.String",
    method "compareTo" ["java.lang.Short"] "int",
    method "equals" ["java.lang.Object"] "boolean",
    method "hashCode" [] "int",
    static "compare" ["short", "short"] "int",
    static "parseShort" ["java.lang.String"] "short"]
  fields := [constant "MAX_VALUE" "short", constant "MIN_VALUE" "short"]

/-- `java.lang.Byte`. -/
def byteType : CompiledType where
  name := "java.lang.Byte"
  isInterface := false
  superclass := some "java.lang.Number"
  interfaces := ["java.lang.Comparable"]
  methods := [
    static "valueOf" ["byte"] "java.lang.Byte",
    static "valueOf" ["java.lang.String"] "java.lang.Byte",
    method "toString" [] "java.lang.String",
    static "toString" ["byte"] "java.lang.String",
    method "compareTo" ["java.lang.Byte"] "int",
    method "equals" ["java.lang.Object"] "boolean",
    method "hashCode" [] "int",
    static "compare" ["byte", "byte"] "int",
    static "parseByte" ["java.lang.String"] "byte"]
  fields := [constant "MAX_VALUE" "byte", constant "MIN_VALUE" "byte"]

/-- `java.lang.Character`. -/
def characterType : CompiledType where
  name := "java.lang.Character"
  isInterface := false
  superclass := none
  interfaces := ["java.io.Serializable", "java.lang.Comparable"]
  methods := [
    static "valueOf" ["char"] "java.lang.Character",
    method "charValue" [] "char",
    static "isDigit" ["char"] "boolean",
    static "isLetter" ["char"] "boolean",
    static "isWhitespace" ["char"] "boolean",
    static "toUpperCase" ["char"] "char",
    static "toLowerCase" ["char"] "char"]
  fields := []

/-- `java.lang.Boolean`. -/
def booleanType : CompiledType where
  name := "java.lang.Boolean"
  isInterface := false
  superclass := none
  interfaces := ["java.io.Serializable", "java.lang.Comparable"]
  methods := [
    static "valueOf" ["boolean"] "java.lang.Boolean",
    static "valueOf" ["java.lang.String"] "java.lang.Boolean",
    static "parseBoolean" ["java.lang.String"] "boolean",
    method "booleanValue" [] "boolean"]
  fields := [constant "TRUE" "java.lang.Boolean", constant "FALSE" "java.lang.Boolean"]

/-- `java.lang.Math`. -/
def mathType : CompiledType where
  name := "java.lang.Math"
  isInterface := false
  superclass := none
  interfaces := []
  methods := [
    static "random" [] "double",
    static "sqrt" ["double"] "double",
    static "pow" ["double", "double"] "double",
    static "floor" ["double"] "double",
    static "ceil" ["double"] "double",
    static "round" ["double"] "long",
    static "round" ["float"] "int",
    static "max" ["int", "int"] "int",
    static "min" ["int", "int"] "int",
    static "abs" ["int"] "int",
    static "max" ["long", "long"] "long",
    static "min" ["long", "long"] "long",
    static "abs" ["long"] "long",
    static "max" ["float", "float"] "float",
    static "min" ["float", "float"] "float",
    static "abs" ["float"] "float",
    static "max" ["double", "double"] "double",
    static "min" ["double", "double"] "double",
    static "abs" ["double"] "double"]
  fields := [constant "PI" "double", constant "E" "double"]

/-- `java.lang.System`. -/
def systemType : CompiledType where
  name := "java.lang.System"
  isInterface := false
  superclass := none
  interfaces := []
  methods := [
    static "currentTimeMillis" [] "long",
    static "nanoTime" [] "long",
    static "getProperty" ["java.lang.String"] "java.lang.String",
    static "getenv" ["java.lang.String"] "java.lang.String",
    static "arraycopy" ["java.lang.Object", "int", "java.lang.Object", "int", "int"] "void",
    static "exit" ["int"] "void",
    static "lineSeparator" [] "java.lang.String"]
  fields := [
    constant "out" "java.io.PrintStream",
    constant "err" "java.io.PrintStream",
    constant "in" "java.io.InputStream"]

/-- `java.lang.Class`. -/
def classType : CompiledType where
  name := "java.lang.Class"
  isInterface := false
  superclass := none
  interfaces := ["java.io.Serializable"]
  methods := [
    method "getName" [] "java.lang.String",
    method "getSimpleName" [] "java.lang.String",
    method "isInstance" ["java.lang.Object"] "boolean",
    method "cast" ["java.lang.Object"] "java.lang.Object"]
  fields := []

/-- `java.lang.Enum`. -/
def enumType : CompiledType where
  name := "java.lang.Enum"
  isInterface := false
  superclass := none
  interfaces := ["java.lang.Comparable", "java.io.Serializable"]
  methods := [
    method "name" [] "java.lang.String",
    method "ordinal" [] "int",
    method "toString" [] "java.lang.String"]
  fields := []

/-- `java.lang.Record`. -/
def recordType : CompiledType where
  name := "java.lang.Record"
  isInterface := false
  superclass := none
  interfaces := []
  methods := [
    method "equals" ["java.lang.Object"] "boolean",
    method "hashCode" [] "int",
    method "toString" [] "java.lang.String"]
  fields := []

/-- `java.lang.Runnable`. -/
def runnableType : CompiledType where
  name := "java.lang.Runnable"
  isInterface := true
  superclass := none
  interfaces := []
  methods := [method "run" [] "void"]
  fields := []

/-- `java.lang.Thread`. -/
def threadType : CompiledType where
  name := "java.lang.Thread"
  isInterface := false
  superclass := none
  interfaces := ["java.lang.Runnable"]
  methods := [
    static "sleep" ["long"] "void",
    static "currentThread" [] "java.lang.Thread",
    method "start" [] "void",
    method "join" [] "void",
    method "getName" [] "java.lang.String",
    method "interrupt" [] "void"]
  fields := []

/-- `java.lang.Throwable`. -/
def throwableType : CompiledType where
  name := "java.lang.Throwable"
  isInterface := false
  superclass := none
  interfaces := ["java.io.Serializable"]
  methods := [
    method "getMessage" [] "java.lang.String",
    method "getCause" [] "java.lang.Throwable",
    method "printStackTrace" [] "void",
    method "addSuppressed" ["java.lang.Throwable"] "void"]
  fields := []

/-- `java.lang.Exception`. -/
def exceptionType : CompiledType where
  name := "java.lang.Exception"
  isInterface := false
  superclass := some "java.lang.Throwable"
  interfaces := []
  methods := []
  fields := []

/-- `java.lang.RuntimeException`. -/
def runtimeExceptionType : CompiledType where
  name := "java.lang.RuntimeException"
  isInterface := false
  superclass := some "java.lang.Exception"
  interfaces := []
  methods := []
  fields := []

/-- `java.lang.IllegalArgumentException`. -/
def illegalArgumentExceptionType : CompiledType where
  name := "java.lang.IllegalArgumentException"
  isInterface := false
  superclass := some "java.lang.RuntimeException"
  interfaces := []
  methods := []
  fields := []

/-- `java.lang.IllegalStateException`. -/
def illegalStateExceptionType : CompiledType where
  name := "java.lang.IllegalStateException"
  isInterface := false
  superclass := some "java.lang.RuntimeException"
  interfaces := []
  methods := []
  fields := []

/-- `java.lang.NullPointerException`. -/
def nullPointerExceptionType : CompiledType where
  name := "java.lang.NullPointerException"
  isInterface := false
  superclass := some "java.lang.RuntimeException"
  interfaces := []
  methods := []
  fields := []

/-- `java.lang.UnsupportedOperationException`. -/
def unsupportedOperationExceptionType : CompiledType where
  name := "java.lang.UnsupportedOperationException"
  isInterface := false
  superclass := some "java.lang.RuntimeException"
  interfaces := []
  methods := []
  fields := []

/-- The described types of java.lang. -/
def lang : List CompiledType :=
  [objectType, charSequenceType, comparableType, cloneableType, autoCloseableType, iterableType,
   stringType, abstractStringBuilderType, stringBuilderType, numberType, integerType, longType,
   doubleType, floatType, shortType, byteType, characterType, booleanType, mathType, systemType,
   classType, enumType, recordType, runnableType, threadType, throwableType, exceptionType,
   runtimeExceptionType, illegalArgumentExceptionType, illegalStateExceptionType,
   nullPointerExceptionType, unsupportedOperationExceptionType]

end JavaCallGraph.Catalog.Jdk

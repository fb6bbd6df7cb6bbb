import JavaCallGraph.Catalog.Jdk.Record

/-!
# The built-in catalog: java.util.function, java.util.stream, java.util.concurrent and java.io
-/

set_option autoImplicit false

namespace JavaCallGraph.Catalog.Jdk

/-- `java.io.Serializable`. -/
def serializableType : CompiledType where
  name := "java.io.Serializable"
  isInterface := true
  superclass := none
  interfaces := []
  methods := []
  fields := []

/-- `java.io.OutputStream`. -/
def outputStreamType : CompiledType where
  name := "java.io.OutputStream"
  isInterface := false
  superclass := none
  interfaces := ["java.lang.AutoCloseable"]
  methods := [method "write" ["int"] "void", method "flush" [] "void", method "close" [] "void"]
  fields := []

/-- `java.io.InputStream`. -/
def inputStreamType : CompiledType where
  name := "java.io.InputStream"
  isInterface := false
  superclass := none
  interfaces := ["java.lang.AutoCloseable"]
  methods := [method "read" [] "int", method "close" [] "void"]
  fields := []

/-- `java.io.PrintStream`. -/
def printStreamType : CompiledType where
  name := "java.io.PrintStream"
  isInterface := false
  superclass := some "java.io.OutputStream"
  interfaces := []
  methods := [
    method "println" [] "void",
    method "flush" [] "void",
    method "println" ["boolean"] "void",
    method "print" ["boolean"] "void",
    method "println" ["char"] "void",
    method "print" ["char"] "void",
    method "println" ["int"] "void",
    method "print" ["int"] "void",
    method "println" ["long"] "void",
    method "print" ["long"] "void",
    method "println" ["float"] "void",
    method "print" ["float"] "void",
    method "println" ["double"] "void",
    method "print" ["double"] "void",
    method "println" ["char[]"] "void",
    method "print" ["char[]"] "void",
    method "println" ["java.lang.String"] "void",
    method "print" ["java.lang.String"] "void",
    method "println" ["java.lang.Object"] "void",
    method "print" ["java.lang.Object"] "void",
    varargs "printf" ["java.lang.String", "java.lang.Object[]"] "java.io.PrintStream"]
  fields := []

/-- `java.io.IOException`. -/
def iOExceptionType : CompiledType where
  name := "java.io.IOException"
  isInterface := false
  superclass := some "java.lang.Exception"
  interfaces := []
  methods := []
  fields := []

/-- `java.util.concurrent.ConcurrentHashMap`. -/
def concurrentHashMapType : CompiledType where
  name := "java.util.concurrent.ConcurrentHashMap"
  isInterface := false
  superclass := some "java.util.AbstractMap"
  interfaces := ["java.util.Map"]
  methods := []
  fields := []

/-- `java.util.function.Function`. -/
def functionType : CompiledType where
  name := "java.util.function.Function"
  isInterface := true
  superclass := none
  interfaces := []
  methods := [method "apply" ["java.lang.Object"] "java.lang.Object"]
  fields := []

/-- `java.util.function.BiFunction`. -/
def biFunctionType : CompiledType where
  name := "java.util.function.BiFunction"
  isInterface := true
  superclass := none
  interfaces := []
  methods := [method "apply" ["java.lang.Object", "java.lang.Object"] "java.lang.Object"]
  fields := []

/-- `java.util.function.Consumer`. -/
def consumerType : CompiledType where
  name := "java.util.function.Consumer"
  isInterface := true
  superclass := none
  interfaces := []
  methods := [method "accept" ["java.lang.Object"] "void"]
  fields := []

/-- `java.util.function.BiConsumer`. -/
def biConsumerType : CompiledType where
  name := "java.util.function.BiConsumer"
  isInterface := true
  superclass := none
  interfaces := []
  methods := [method "accept" ["java.lang.Object", "java.lang.Object"] "void"]
  fields := []

/-- `java.util.function.Supplier`. -/
def supplierType : CompiledType where
  name := "java.util.function.Supplier"
  isInterface := true
  superclass := none
  interfaces := []
  methods := [method "get" [] "java.lang.Object"]
  fields := []

/-- `java.util.function.Predicate`. -/
def predicateType : CompiledType where
  name := "java.util.function.Predicate"
  isInterface := true
  superclass := none
  interfaces := []
  methods := [method "test" ["java.lang.Object"] "boolean"]
  fields := []

/-- `java.util.stream.BaseStream`. -/
def baseStreamType : CompiledType where
  name := "java.util.stream.BaseStream"
  isInterface := true
  superclass := none
  interfaces := ["java.lang.AutoCloseable"]
  methods := []
  fields := []

/-- `java.util.stream.Stream`. -/
def streamType : CompiledType where
  name := "java.util.stream.Stream"
  isInterface := true
  superclass := none
  interfaces := ["java.util.stream.BaseStream"]
  methods := [
    method "filter" ["java.util.function.Predicate"] "java.util.stream.Stream",
    method "map" ["java.util.function.Function"] "java.util.stream.Stream",
    method "flatMap" ["java.util.function.Function"] "java.util.stream.Stream",
    method "forEach" ["java.util.function.Consumer"] "void",
    method "collect" ["java.util.stream.Collector"] "java.lang.Object",
    method "count" [] "long",
    method "toList" [] "java.util.List",
    method "findFirst" [] "java.util.Optional",
    method "anyMatch" ["java.util.function.Predicate"] "boolean",
    method "sorted" [] "java.util.stream.Stream",
    method "distinct" [] "java.util.stream.Stream",
    method "limit" ["long"] "java.util.stream.Stream",
    staticVarargs "of" ["java.lang.Object[]"] "java.util.stream.Stream"]
  fields := []

/-- `java.util.stream.Collector`. -/
def collectorType : CompiledType where
  name := "java.util.stream.Collector"
  isInterface := true
  superclass := none
  interfaces := []
  methods := []
  fields := []

/-- `java.util.stream.Collectors`. -/
def collectorsType : CompiledType where
  name := "java.util.stream.Collectors"
  isInterface := false
  superclass := none
  interfaces := []
  methods := [
    static "toList" [] "java.util.stream.Collector",
    static "toSet" [] "java.util.stream.Collector",
    static "joining" ["java.lang.CharSequence"] "java.util.stream.Collector",
    static "groupingBy" ["java.util.function.Function"] "java.util.stream.Collector",
    static "toMap" ["java.util.function.Function", "java.util.function.Function"] "java.util.stream.Collector"]
  fields := []

/-- The described types of java.util.function, java.util.stream, java.util.concurrent and java.io. -/
def support : List CompiledType :=
  [serializableType, outputStreamType, inputStreamType, printStreamType, iOExceptionType,
   concurrentHashMapType, functionType, biFunctionType, consumerType, biConsumerType,
   supplierType, predicateType, baseStreamType, streamType, collectorType, collectorsType]

end JavaCallGraph.Catalog.Jdk

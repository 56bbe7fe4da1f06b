import BmoX.Antena.Acuerdo
import BmoX.Bex.Contenida
import BmoX.Bex.Admitir
import BmoX.Cobol.Desborde
import BmoX.Cola.Cola
import BmoX.Cripto.Rfc8032
import BmoX.Cripto.Sp80038d
import BmoX.Cripto.X25519
import BmoX.Estratos.FlujoLeido
import BmoX.Estratos.IdaYVuelta
import BmoX.Estratos.Listado
import BmoX.Estratos.Nombres
import BmoX.Estratos.Transaccion
import BmoX.Fat.Cursor
import BmoX.Fsys.Firma
import BmoX.Fsys.Permanente
import BmoX.Hash.Arbol
import BmoX.Lower.Decimales
import BmoX.Lower.Lectura
import BmoX.Mm.Espacios
import BmoX.Mm.Espacios
import BmoX.Mm.Reparto
import BmoX.Mm.Vuelos
import BmoX.Obj.Concesiones
import BmoX.Obj.Estuario
import BmoX.Obj.Muertes
import BmoX.Pila.Acuse
import BmoX.Pila.Dhcp
import BmoX.Pila.DnsRespuesta
import BmoX.Pila.Nodo
import BmoX.Pila.Prefijo
import BmoX.Pila.Segmento
import BmoX.Red.Cable
import BmoX.Red.Exacto
import BmoX.Rt.Conserves
import BmoX.Sched.Censo
import BmoX.Sched.Rueda
import BmoX.Xhci.Anillos
import BmoX.Xhci.Eventos
import BmoX.Cobol.Tablas
import BmoX.Imagen.Exacta
import BmoX.Inti.Sitios
import BmoX.Trim.Olvido
import BmoX.Cripto.Desborde
import BmoX.Cripto.Hmac
import BmoX.Inti.Margen
import BmoX.Inti.ReglaDoce
import BmoX.Estratos.Niveles
import BmoX.C.Rangos
import BmoX.C.Rodata
